import Coroutine.Proof.EventDispatch

/-!
# The scheduler of a registered event

`addEvent` stores what `Scheduler::GetThis()` returns on the calling thread, which is null
outside of workers, and whoever consumes the event schedules through it.

* `AllManned`: every event in a mask has a context with a scheduler. `manned_consume`: then no
  consumption meets a null scheduler.
* `Unmanned`: the call is an `addEvent` that registers an event on a thread without one.
* `step_manned_iff`: exactly the other calls keep the property, so that `all_manned_iff` says of
  every run when it holds throughout.
-/

namespace Coroutine

open Lib

variable {κ : Type} {ctl : EpollCtl κ}

namespace IOManager

variable {s s' : IOManager κ}

/-- **Every registered event has a scheduler.** -/
def AllManned (s : IOManager κ) : Prop := ∀ p e, (s.fdctx p).Has e → s.Manned p e

/-- Consuming a registered event schedules it. -/
theorem manned_consume (hs : s.OK) (hm : s.AllManned) {p : ℕ} {e : Event}
    (hh : (s.fdctx p).Has e) : ∃ s', s.consume p e = .ok s' := by
  obtain ⟨s', h⟩ := (consumeIf_iff (b := true) hs).2 fun _ => hm p e hh
  exact ⟨s', h⟩

theorem manned_same (h : s.SameEvents s') (hm : s.AllManned) : s'.AllManned := by
  intro p e hh
  obtain ⟨hmask, hctx⟩ := h p
  have hhas : (s.fdctx p).Has e := by
    unfold FdContext.Has at hh ⊢
    rwa [hmask] at hh
  obtain ⟨-, ctx, sched, hc, hsched⟩ := hm p e hhas
  exact ⟨hh, ctx, sched, (hctx e).trans hc, hsched⟩

theorem manned_dropAt (hs : s.OK) (hm : s.AllManned) (p : ℕ) (e : Event)
    (t : Option (ℕ × FiberOrcb)) : (s.dropAt p e t).AllManned := by
  intro q e' hh
  by_cases hq : q = p
  · subst hq
    unfold Manned
    rw [dropAt_fdctx_self] at hh ⊢
    obtain ⟨hne, hhas⟩ := (FdContext.has_drop (hs.ctx q).mask).1 hh
    obtain ⟨-, hrest⟩ := hm q e' hhas
    rw [FdContext.getContext_drop_of_ne hne]
    exact ⟨hh, hrest⟩
  · unfold Manned
    rw [dropAt_fdctx_of_ne e t hq] at hh ⊢
    exact hm q e' hh

theorem manned_consumeIf (hs : s.OK) (hm : s.AllManned) {b : Bool} {p : ℕ} {e : Event}
    (h : consumeIf b s p e = .ok s') : s'.AllManned := by
  unfold consumeIf at h
  split at h
  · obtain ⟨ctx, sched, t, -, -, -, -, rfl⟩ := (consume_eq_ok hs).1 h
    exact manned_dropAt hs hm p e _
  · cases h
    exact hm

/-- A registration keeps the property exactly when it has a scheduler. -/
theorem manned_addAt_iff (hs : s.OK) (hm : s.AllManned) {p : ℕ} {e : Event} (he : e ≠ .NONE)
    {ctx : EventContext} : (s.addAt p e ctx).AllManned ↔ ctx.scheduler.isSome := by
  have hmask := (hs.ctx p).mask
  constructor
  · intro h
    have hhas : ((s.addAt p e ctx).fdctx p).Has e := by
      rw [addAt_fdctx_self]
      exact (FdContext.has_add hmask he).2 (.inl rfl)
    obtain ⟨-, ctx', sched, hc, hsched⟩ := h p e hhas
    rw [addAt_fdctx_self, FdContext.getContext_add_self he] at hc
    cases hc
    rw [hsched]
    rfl
  · intro hsome q e' hh
    by_cases hq : q = p
    · subst hq
      unfold Manned
      rw [addAt_fdctx_self] at hh ⊢
      refine ⟨hh, ?_⟩
      by_cases hne : e' = e
      · subst hne
        obtain ⟨sched, hsched⟩ := Option.isSome_iff_exists.1 hsome
        exact ⟨ctx, sched, FdContext.getContext_add_self he, hsched⟩
      · rw [FdContext.getContext_add_of_ne hne]
        rcases (FdContext.has_add hmask he).1 hh with heq | hhas
        · exact absurd heq hne
        · exact (hm q e' hhas).2
    · unfold Manned
      rw [addAt_fdctx_of_ne e ctx hq] at hh ⊢
      exact hm q e' hh

/-- Without a callback, what registers an event is an executing fiber. -/
theorem addEventAt_exec {caller : Caller} {p : ℕ} {fd : Int32} {e : Event} {r : ℤ × IOManager κ}
    (hacc : (addAnswer ctl s p fd e).1 = 0)
    (h : s.addEventAt ctl caller p fd e none = .ok r) : caller.exec := by
  unfold addAnswer at hacc
  simp only [addEventAt, hacc, ne_eq, not_true_eq_false, if_false] at h
  split at h
  · cases h
  split at h
  · cases h
  split at h
  · cases h
  split at h
  · assumption
  · cases h

end IOManager

namespace EventOp

open IOManager

variable {s s' : IOManager κ}

/-- **The call registers an event on a thread without a scheduler**: no event is there already,
the kernel accepts, and a call without a callback is made by an executing fiber. -/
def Unmanned (ctl : EpollCtl κ) (s : IOManager κ) : EventOp → Prop
  | .addEvent caller fd e cb =>
    caller.scheduler = none ∧ ∃ p s₁, s.lookup fd = .ok (p, s₁) ∧ e ≠ .NONE ∧
      ¬ (s₁.fdctx p).Has e ∧ (addAnswer ctl s₁ p fd e).1 = 0 ∧ (cb = none → caller.exec)
  | _ => False

/-- A call that registers on a thread without a scheduler returns. -/
theorem Unmanned.returns (hs : s.OK) {op : EventOp} (h : op.Unmanned ctl s) :
    ∃ s', op.call ctl s = .ok s' := by
  cases op with
  | addEvent caller fd e cb =>
    obtain ⟨-, p, s₁, hl, he, hno, -, hexec⟩ := h
    obtain ⟨r, hr⟩ : ∃ r, s₁.addEventAt ctl caller p fd e cb = .ok r :=
      addEventAt_defined (lookup_ok hs hl).1 he hno hexec
    have hadd : s.addEvent ctl caller fd e cb = .ok r := by
      unfold IOManager.addEvent
      rw [hl]
      exact hr
    exact ⟨r.2, congrArg (Except.map fun x : ℤ × IOManager κ => x.2) hadd⟩
  | delEvent fd e => exact h.elim
  | cancelEvent fd e => exact h.elim
  | cancelAll fd => exact h.elim
  | dispatch p events => exact h.elim

/-- Every other operation than `addEvent` keeps the property. -/
theorem call_manned (hs : s.OK) (hm : s.AllManned) {op : EventOp}
    (hop : ∀ caller fd e cb, op ≠ .addEvent caller fd e cb) (h : op.call ctl s = .ok s') :
    s'.AllManned := by
  cases call_does h with
  | nothing => exact hm
  | refused _ k => exact hm
  | @adds caller fd e cb rt p s₁ _ hl ha => exact absurd rfl (hop caller fd e cb)
  | drops _ req fd events p e hacc hh => exact manned_dropAt (answer_ok hs _) hm p e none
  | consumes _ req fd events hacc h1 h2 =>
    have hs₀ := answer_ok hs (ctl s.kernel req fd events).2
    have hm₁ : AllManned _ := manned_consumeIf hs₀ hm h1
    exact manned_consumeIf (consumeIf_ok hs₀ h1) hm₁ h2

/-- **One call.** -/
theorem step_manned_iff (hs : s.OK) (hm : s.AllManned) {op : EventOp}
    (h : op.call ctl s = .ok s') : s'.AllManned ↔ ¬ op.Unmanned ctl s := by
  by_cases hop : ∀ caller fd e cb, op ≠ .addEvent caller fd e cb
  · have hnot : ¬ op.Unmanned ctl s := by
      cases op with
      | addEvent caller fd e cb => exact absurd rfl (hop caller fd e cb)
      | _ => exact fun hu => hu.elim
    exact ⟨fun _ => hnot, fun _ => call_manned hs hm hop h⟩
  push Not at hop
  obtain ⟨caller, fd, e, cb, rfl⟩ := hop
  obtain ⟨⟨rt, s₂⟩, ha, rfl⟩ := map_ok h
  obtain ⟨p, s₁, hl, ha⟩ := addEvent_ok ha
  obtain ⟨hs₁, hsame, -⟩ := lookup_ok hs hl
  have hm₁ : s₁.AllManned := manned_same hsame hm
  rcases addEventAt_cases hs₁ ha with ⟨-, hrefused, rfl⟩ | ⟨-, hacc, he, hno, rfl⟩
  · refine ⟨fun _ => ?_, fun _ => hm₁⟩
    rintro ⟨-, p', s₁', hl', -, -, hacc, -⟩
    rw [hl] at hl'
    cases hl'
    exact hrefused hacc
  · have hsched : (caller.context cb).scheduler = caller.scheduler := by cases cb <;> rfl
    have hiff : ((s₁.answer (addAnswer ctl s₁ p fd e).2).addAt p e (caller.context cb)).AllManned ↔
        (caller.context cb).scheduler.isSome := manned_addAt_iff (answer_ok hs₁ _) hm₁ he
    rw [hsched] at hiff
    refine hiff.trans ?_
    constructor
    · rintro hsome ⟨hnone, -⟩
      rw [hnone] at hsome
      cases hsome
    · intro hnot
      by_contra hnone
      refine hnot ⟨Option.not_isSome_iff_eq_none.1 hnone, p, s₁, hl, he, hno, hacc, ?_⟩
      rintro rfl
      exact addEventAt_exec hacc ha

end EventOp

/-- **In every state of a run every registered event has a scheduler, if and only if no call
registers an event on a thread without one.** -/
theorem all_manned_iff {κ : Type} (ctl : EpollCtl κ) (k : κ) (ops : List EventOp) :
    (∀ r ∈ trace (EventOp.step ctl) (.ok (IOManager.init k)) ops,
        IfOk (fun s : IOManager κ => s.AllManned) r) ↔
      Along (EventOp.step ctl) (fun r op => IfOk (fun s => ¬ op.Unmanned ctl s) r)
        (.ok (IOManager.init k)) ops := by
  have hinit : (IOManager.init k).AllManned := by
    intro p e hh
    exact absurd ((IOManager.init_ok k).count_pos hh) (Nat.lt_irrefl 0)
  refine forall_trace_iff_of (I := IfOk fun s : IOManager κ => s.OK) ?_ ?_ ops
    (IOManager.init_ok k) hinit
  · intro r op hr _ _
    cases r with
    | error e => exact trivial
    | ok s =>
      cases hcall : op.call ctl s with
      | error e => simp only [EventOp.step, Except.bind, hcall, IfOk]
      | ok s' =>
        simp only [EventOp.step, Except.bind, hcall]
        exact IOManager.call_keeps_ok hr hcall
  · intro r op hr hm
    cases r with
    | error e => exact Iff.rfl
    | ok s =>
      cases hcall : op.call ctl s with
      | error e =>
        have hnot : ¬ op.Unmanned ctl s := by
          intro hu
          obtain ⟨s', hs'⟩ := hu.returns hr
          rw [hcall] at hs'
          cases hs'
        simpa only [EventOp.step, Except.bind, hcall, IfOk, true_iff] using hnot
      | ok s' =>
        simp only [EventOp.step, Except.bind, hcall]
        exact EventOp.step_manned_iff hr hm hcall

/-- A read event with a callback, registered on a thread that is no worker. -/
def outsideCall : EventOp := .addEvent ⟨none, 0, true⟩ 5 .READ (some 7)

/-- The event is in the mask and has no scheduler; `cancelEvent` then follows the null pointer. -/
theorem registered_outside :
    ¬ (∀ (ops : List EventOp), ∀ r ∈ trace (EventOp.step IOManager.acceptAll)
        (.ok (IOManager.init ())) ops, IfOk (fun s : IOManager Unit => s.AllManned) r) ∧
      (match run (EventOp.step IOManager.acceptAll) (.ok (IOManager.init ()))
          [outsideCall, .cancelEvent 5 .READ] with
        | .error .undefined => True
        | _ => False) := by
  refine ⟨fun h => ?_, trivial⟩
  have hm : IfOk (fun s : IOManager Unit => s.AllManned)
      (run (EventOp.step IOManager.acceptAll) (.ok (IOManager.init ())) [outsideCall]) :=
    h [outsideCall] _ (run_mem_trace _ _)
  obtain ⟨-, ctx, sched, hc, hsched⟩ := hm 5 .READ (by decide)
  cases hc
  cases hsched

end Coroutine
