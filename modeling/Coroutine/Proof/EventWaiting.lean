import Coroutine.Proof.EventMirror
import Coroutine.Spec.HookIo

/-!
# Registered descriptors

Which events of which descriptors are registered, through the table (`HasEvent`). No call but
`addEvent` registers anything (`call_shrinks`), and `addEvent` registers only what it is asked to
(`call_hasEvent`), also where it resizes the table.
-/

namespace Coroutine

open Lib

namespace IOManager

variable {κ : Type} {ctl : EpollCtl κ} {s s' : IOManager κ}

/-- Event `event` of `fd` is registered. -/
def HasEvent (s : IOManager κ) (fd : Int32) (event : Event) : Prop :=
  ∃ p ∈ (s.slot fd).toOption, (s.fdctx p).Has event

instance (s : IOManager κ) (fd : Int32) (event : Event) : Decidable (s.HasEvent fd event) :=
  inferInstanceAs (Decidable (∃ p ∈ (s.slot fd).toOption, (s.fdctx p).Has event))

theorem hasEvent_iff {fd : Int32} {e : Event} :
    s.HasEvent fd e ↔ ∃ p, s.slot fd = .ok p ∧ (s.fdctx p).Has e := by
  unfold HasEvent
  cases s.slot fd with
  | error f => simp [Except.toOption]
  | ok p => simp [Except.toOption]

/-- **The table of a reachable manager.** -/
structure Tabled (s : IOManager κ) : Prop where
  ok : s.OK
  nodup : s.m_fdContexts.Nodup

theorem init_tabled (k : κ) : (init k).Tabled := ⟨init_ok k, (init_laid k).nodup⟩

theorem Tabled.slot_inj (hs : s.Tabled) {fd fd' : Int32} {p : ℕ} (h : s.slot fd = .ok p)
    (h' : s.slot fd' = .ok p) : fd = fd' := by
  obtain ⟨hnonneg, hget⟩ := slot_eq_ok.1 h
  obtain ⟨hnonneg', hget'⟩ := slot_eq_ok.1 h'
  obtain ⟨hi, hp⟩ := List.getElem?_eq_some_iff.1 hget
  obtain ⟨hi', hp'⟩ := List.getElem?_eq_some_iff.1 hget'
  have hindex : fd.toInt.toNat = fd'.toInt.toNat :=
    (hs.nodup.getElem_inj_iff).1 (hp.trans hp'.symm)
  have hzero : (0 : Int32).toInt = 0 := rfl
  rw [Int32.le_iff_toInt_le, hzero] at hnonneg hnonneg'
  rw [← Int32.toInt_inj]
  omega

/-! ## Operations that register nothing -/

/-- **The table is the same, and no event is registered that was not.** -/
structure Shrinks (s s' : IOManager κ) : Prop where
  table : s'.m_fdContexts = s.m_fdContexts
  events : ∀ p e, (s'.fdctx p).Has e → (s.fdctx p).Has e

theorem shrinks_refl (s : IOManager κ) : s.Shrinks s := ⟨rfl, fun _ _ h => h⟩

theorem shrinks_answer (k : κ) : s.Shrinks (s.answer k) := ⟨rfl, fun _ _ h => h⟩

theorem Shrinks.trans {s'' : IOManager κ} (h : s.Shrinks s') (h' : s'.Shrinks s'') : s.Shrinks s'' :=
  ⟨h'.table.trans h.table, fun p e hh => h.events p e (h'.events p e hh)⟩

theorem shrinks_dropAt (hs : s.OK) (p : ℕ) (e : Event) (t : Option (ℕ × FiberOrcb)) :
    s.Shrinks (s.dropAt p e t) := by
  refine ⟨rfl, ?_⟩
  intro q e' hh
  by_cases hq : q = p
  · subst hq
    rw [dropAt_fdctx_self, FdContext.has_drop (hs.ctx q).mask] at hh
    exact hh.2
  · rw [dropAt_fdctx_of_ne e t hq] at hh
    exact hh

theorem shrinks_consumeIf (hs : s.OK) {b : Bool} {p : ℕ} {e : Event}
    (h : consumeIf b s p e = .ok s') : s.Shrinks s' := by
  unfold consumeIf at h
  split at h
  · obtain ⟨ctx, sched, t, -, -, -, -, rfl⟩ := (consume_eq_ok hs).1 h
    exact shrinks_dropAt hs p e _
  · cases h
    exact shrinks_refl s

/-- **No call but `addEvent` registers anything.** -/
theorem call_shrinks (hs : s.OK) {op : EventOp} (h : op.call ctl s = .ok s')
    (hop : ∀ caller fd e cb, op ≠ .addEvent caller fd e cb) : s.Shrinks s' := by
  have hanswer : ∀ k, (s.answer k).OK := answer_ok hs
  cases call_does h with
  | nothing => exact shrinks_refl _
  | refused _ k => exact shrinks_answer k
  | adds hl ha => exact absurd rfl (hop _ _ _ _)
  | drops _ req fd events p e hacc hh =>
    exact (shrinks_answer _).trans (shrinks_dropAt (hanswer _) p e none)
  | consumes _ req fd events hacc h1 h2 =>
    have hfirst := shrinks_consumeIf (hanswer _) h1
    have hsecond := shrinks_consumeIf (consumeIf_ok (hanswer _) h1) h2
    exact ((shrinks_answer _).trans hfirst).trans hsecond

theorem Shrinks.hasEvent (h : s.Shrinks s') {fd : Int32} {e : Event} (hh : s'.HasEvent fd e) :
    s.HasEvent fd e := by
  obtain ⟨p, hslot, hp⟩ := hasEvent_iff.1 hh
  have hslot' : s.slot fd = .ok p := by
    rw [← hslot]
    unfold slot
    rw [h.table]
  exact hasEvent_iff.2 ⟨p, hslot', h.events p e hp⟩

/-! ## `addEvent` -/

/-- **A new place in the table has no event.** -/
theorem lookup_tabled (hs : s.Tabled) {fd : Int32} {p : ℕ} (h : s.lookup fd = .ok (p, s')) :
    s'.Tabled ∧ ∀ fd' e, s'.HasEvent fd' e → s.HasEvent fd' e := by
  rcases lookup_cases h with ⟨-, rfl⟩ | ⟨-, rfl⟩
  · exact ⟨hs, fun _ _ hh => hh⟩
  refine ⟨⟨contextResize_ok hs.ok _, contextResize_nodup hs.ok hs.nodup _⟩, ?_⟩
  intro fd' e hh
  obtain ⟨q, hslot, hq⟩ := hasEvent_iff.1 hh
  have hold : (s.fdctx q).Has e := by
    have hsame := (contextResize_same hs.ok (growSize fd) q).1
    unfold FdContext.Has at hq ⊢
    rw [← hsame]
    exact hq
  obtain ⟨hnonneg, hget⟩ := slot_eq_ok.1 hslot
  rw [contextResize_get] at hget
  split at hget
  · split at hget
    · exact hasEvent_iff.2 ⟨q, slot_eq_ok.2 ⟨hnonneg, hget⟩, hold⟩
    · -- a context that was not made yet
      cases hget
      have hlt := hs.ok.lt_nctx hold
      omega
  · cases hget

/-- **A call leaves the table in order, and registers nothing that it is not asked to.** -/
theorem call_hasEvent (hs : s.Tabled) {op : EventOp} (h : op.call ctl s = .ok s') :
    s'.Tabled ∧ ∀ fd e, ¬ op.Adds fd e → s'.HasEvent fd e → s.HasEvent fd e := by
  have hok := call_keeps_ok hs.ok h
  by_cases hadd : ∃ caller fd e cb, op = .addEvent caller fd e cb
  · obtain ⟨caller, fd, e, cb, rfl⟩ := hadd
    obtain ⟨⟨rt, s₂⟩, ha, rfl⟩ := map_ok h
    obtain ⟨p, s₁, hl, hat⟩ := addEvent_ok ha
    obtain ⟨hs₁, hevents⟩ := lookup_tabled hs hl
    have hslot := (lookup_ok hs.ok hl).2.2.2.1
    rcases addEventAt_cases hs₁.ok hat with ⟨-, -, rfl⟩ | ⟨-, -, he, -, rfl⟩
    · exact ⟨⟨hok, hs₁.nodup⟩, fun fd' e' _ hh => hevents fd' e' ((shrinks_answer _).hasEvent hh)⟩
    refine ⟨⟨hok, hs₁.nodup⟩, ?_⟩
    intro fd' e' hnot hh
    apply hevents
    obtain ⟨q, hq, hhas⟩ := hasEvent_iff.1 hh
    have hq' : s₁.slot fd' = .ok q := hq
    refine hasEvent_iff.2 ⟨q, hq', ?_⟩
    by_cases hqp : q = p
    · -- the context of `fd`, and so another event
      subst hqp
      have hfd := hs₁.slot_inj hslot hq'
      have hmask : IsMask (((s₁.answer (addAnswer ctl s₁ q fd e).2).fdctx q).m_events) :=
        (hs₁.ok.ctx q).mask
      rw [addAt_fdctx_self, FdContext.has_add hmask he] at hhas
      rcases hhas with heq | hhas
      · exact absurd ⟨hfd, heq.symm⟩ hnot
      · exact hhas
    · rw [addAt_fdctx_of_ne e _ hqp] at hhas
      exact hhas
  · have hshrinks := call_shrinks hs.ok h fun caller fd e cb heq => hadd ⟨caller, fd, e, cb, heq⟩
    exact ⟨⟨hok, hshrinks.table ▸ hs.nodup⟩, fun _ _ _ hh => hshrinks.hasEvent hh⟩

/-- **What `cancelEvent` leaves**: nothing registered, where the descriptor is in the table and
the kernel accepts. -/
theorem cancelEvent_hasEvent (hs : s.Tabled) {fd : Int32} {e : Event} {b : Bool}
    (h : s.cancelEvent ctl fd e = .ok (b, s'))
    (hacc : ∀ p, s.slot fd = .ok p → (s.fdctx p).Has e →
      s.inTable fd ∧ (dropAnswer ctl s p fd e.bits).1 = 0) : ¬ s'.HasEvent fd e := by
  intro hh
  have hcall : (EventOp.cancelEvent fd e).call ctl s = .ok s' := by
    simp [EventOp.call, h, Except.map]
  have hshrinks := call_shrinks hs.ok hcall fun _ _ _ _ => EventOp.noConfusion
  obtain ⟨p, hslot, hhas⟩ := hasEvent_iff.1 (hshrinks.hasEvent hh)
  obtain ⟨hin, hzero⟩ := hacc p hslot hhas
  have hcancel : s.cancelEventAt ctl p fd e =
      ((s.answer (dropAnswer ctl s p fd e.bits).2).consume p e).map (true, ·) := by
    unfold cancelEventAt
    dsimp only
    rw [if_neg hhas]
    exact if_neg (not_not.2 hzero)
  unfold cancelEvent onTable at h
  rw [if_pos hin, hslot] at h
  dsimp only at h
  rw [hcancel] at h
  obtain ⟨s₁, hc, heq⟩ := map_ok h
  cases heq
  obtain ⟨ctx, sched, t, -, -, -, -, rfl⟩ := (consume_eq_ok (answer_ok hs.ok _)).1 hc
  obtain ⟨q, hq, hhas'⟩ := hasEvent_iff.1 hh
  have hq' : s.slot fd = .ok q := hq
  rw [hslot] at hq'
  cases hq'
  have hmask : IsMask ((s.answer (dropAnswer ctl s p fd e.bits).2).fdctx p).m_events :=
    (hs.ok.ctx p).mask
  rw [dropAt_fdctx_self, FdContext.has_drop hmask] at hhas'
  exact hhas'.1 rfl

end IOManager

end Coroutine
