import Coroutine.Proof.HookIo

/-!
# The wake-up of a timeout

`do_io` arms its timer before it registers its event, and nothing keeps the callback of the timer
from running in between: `cancelEvent` then finds no event, and the event that is registered
afterwards has no timer any more.

* `step_kept`: as long as the callback does not end there, and its `cancelEvent` is not refused,
  a round whose callback has ended is not left waiting.
* `timeout_kept`: so no such run loses a timeout.
-/

namespace Coroutine

open Lib

namespace HookIo

variable {κ : Type} {addr : ℕ ↪ ℕ} {ctl : EpollCtl κ} {call : IoCall} {s s' : HookIo κ}

/-- **The timeout is lost**: the fiber is suspended with its event registered and not ready, while
the timer of the round is out of the set and its callback has run. -/
def Lost (call : IoCall) (s : HookIo κ) : Prop :=
  s.pc = .suspended ∧ s.io.HasEvent call.fd call.event ∧ s.ready = false ∧
    ∃ t ∈ s.timer, t ∉ s.timers.m_timers ∧ s.callbacks t = some .finished

instance (call : IoCall) (s : HookIo κ) : Decidable (s.Lost call) :=
  inferInstanceAs (Decidable (_ ∧ _ ∧ _ ∧ ∃ t ∈ s.timer, _))

/-- The kernel takes the event away where it is registered. -/
def Cancellable (ctl : EpollCtl κ) (call : IoCall) (io : IOManager κ) : Prop :=
  ∀ p ∈ (io.slot call.fd).toOption, (io.fdctx p).Has call.event →
    io.inTable call.fd ∧ (IOManager.dropAnswer ctl io p call.fd call.event.bits).1 = 0

instance (ctl : EpollCtl κ) (call : IoCall) (io : IOManager κ) : Decidable (Cancellable ctl call io) :=
  inferInstanceAs (Decidable (∀ p ∈ (io.slot call.fd).toOption, _ → _))

/-- **The callback of the round does not end too early**: it neither finds the flag set nor calls
`cancelEvent` between `addConditionTimer` and `addEvent`; and while the call waits for its event,
it finds the flag set only when the event is not registered, and calls `cancelEvent` only when the
kernel takes the event away. -/
def EndsInTime (ctl : EpollCtl κ) (call : IoCall) (s : HookIo κ) : HookAct → Prop
  | .callback t => s.timer = some t →
    (s.callbacks t = some .locked → s.cancelled ≠ 0 →
      s.pc ≠ .add ∧ (s.pc.waits = true → ¬ s.io.HasEvent call.fd call.event)) ∧
    (s.callbacks t = some .flagged →
      s.pc ≠ .add ∧ (s.pc.waits = true → Cancellable ctl call s.io))
  | _ => True

instance (ctl : EpollCtl κ) (call : IoCall) (s : HookIo κ) : DecidablePred (EndsInTime ctl call s)
  | .callback _ => inferInstanceAs (Decidable (_ → (_ → _ → _) ∧ (_ → _)))
  | .io _ _ | .listExpired _ _ | .timerOp _ | .eventOp _ | .ready _ | .tick _ =>
    inferInstanceAs (Decidable True)

/-- The callback of the round has ended, and the call does not wait for its event. -/
def Ended (call : IoCall) (s : HookIo κ) : Prop :=
  ∀ t, s.timer = some t → s.callbacks t = some .finished →
    s.pc ≠ .add ∧ (s.pc.waits = true → ¬ s.io.HasEvent call.fd call.event)

/-- **A round whose callback has ended is not left waiting.** -/
structure Kept (addr : ℕ ↪ ℕ) (call : IoCall) (s : HookIo κ) : Prop where
  sound : s.Sound addr
  table : s.io.Tabled
  ended : s.Ended call

theorem Kept.not_lost (hs : s.Kept addr call) : ¬ s.Lost call := by
  rintro ⟨hpc, hevent, -, t, ht, -, hfin⟩
  exact (hs.ended t ht hfin).2 (by rw [hpc]; rfl) hevent

theorem init_kept (now_ms : UInt64) (k : κ) : (init now_ms k).Kept addr call :=
  ⟨init_sound now_ms k, IOManager.init_tabled k, fun _ ht => by cases ht⟩

/-- Away from its event the call has nothing to lose. -/
theorem ended_of_pc (hadd : s.pc ≠ .add) (hwaits : s.pc.waits = false) : s.Ended call := by
  intro t _ _
  refine ⟨hadd, fun h => ?_⟩
  rw [hwaits] at h
  cases h

theorem moves_kept (hs : s.Kept addr call) {n : ℤ} {errno : CInt}
    (h : Moves addr ctl call s n errno s') : s'.Kept addr call := by
  have hsound := moves_sound hs.sound h
  cases h with
  | stays => exact hs
  | enters pc hpc hnext =>
    refine ⟨hsound, hs.table, ?_⟩
    rcases hnext with rfl | rfl | rfl <;> exact ended_of_pc IoPc.noConfusion rfl
  | returns hpc => exact ⟨hsound, hs.table, ended_of_pc IoPc.noConfusion rfl⟩
  | starts pc hpc hnext =>
    -- no timer, or one that is added next
    refine ⟨hsound, hs.table, ?_⟩
    intro t ht
    exact absurd ht (hs.sound.ne_timer (by rw [hpc]; rfl) t)
  | arms hpc => exact ⟨hsound, hs.table, ended_of_pc IoPc.noConfusion rfl⟩
  | inserts now hpc =>
    refine ⟨hsound, hs.table, ?_⟩
    intro t ht hfin
    cases ht
    have hnone : s.callbacks s.timers.made = none := hs.sound.fresh
    rw [show s.callbacks s.timers.made = some .finished from hfin] at hnone
    cases hnone
  | adds io pc hpc hio hnext =>
    refine ⟨hsound, (IOManager.call_hasEvent hs.table hio).1, ?_⟩
    intro t ht hfin
    exact absurd hpc (hs.ended t ht hfin).1
  | fails m hpc hm => exact ⟨hsound, hs.table, ended_of_pc IoPc.noConfusion rfl⟩
  | yields hpc =>
    refine ⟨hsound, hs.table, ?_⟩
    intro t ht hfin
    exact ⟨IoPc.noConfusion, fun _ => (hs.ended t ht hfin).2 (by rw [hpc]; rfl)⟩
  | wakes hpc => exact ⟨hsound, hs.table, ended_of_pc IoPc.noConfusion rfl⟩
  | cancels m hpc hm => exact ⟨hsound, hs.table, ended_of_pc IoPc.noConfusion rfl⟩
  | timesOut hpc hset => exact ⟨hsound, hs.table, ended_of_pc IoPc.noConfusion rfl⟩
  | retries hpc hset => exact ⟨hsound, hs.table, ended_of_pc IoPc.noConfusion rfl⟩

/-- A step of the callback of `t` matters where `t` is the timer of the round and its callback ends. -/
theorem Ended.setCallback (hs : s.Ended call) {t : ℕ} {pc : CbPc}
    (hend : s.timer = some t → pc = .finished →
      s.pc ≠ .add ∧ (s.pc.waits = true → ¬ s.io.HasEvent call.fd call.event)) :
    (s.setCallback t pc).Ended call := by
  intro i hi hfin
  by_cases hit : i = t
  · rw [hit, setCallback_self] at hfin
    rw [hit] at hi
    exact hend hi (Option.some.inj hfin)
  · rw [setCallback_of_ne pc hit] at hfin
    exact hs i hi hfin

theorem fires_kept (hs : s.Kept addr call) {t : ℕ} (hok : s.EndsInTime ctl call (.callback t))
    (h : Fires ctl call s t s') : s'.Kept addr call := by
  have hsound := fires_sound hs.sound h
  cases h with
  | stays => exact hs
  | locks pc hpc hnext =>
    refine ⟨hsound, hs.table, hs.ended.setCallback ?_⟩
    rintro - rfl
    rcases hnext with hpc' | ⟨-, halive⟩
    · cases hpc'
    · -- the `timer_info` is gone, so the call has returned
      have hdone : s.pc.done = true := by
        unfold alive at halive
        simpa using (Bool.or_eq_false_iff.1 halive).1
      cases hcase : s.pc with
      | returned n errno => exact ⟨IoPc.noConfusion, fun h => by cases h⟩
      | _ => rw [hcase] at hdone; cases hdone
  | skips hpc hset =>
    exact ⟨hsound, hs.table, hs.ended.setCallback fun ht _ => (hok ht).1 hpc hset⟩
  | tests hpc hset =>
    exact ⟨hsound, hs.table, hs.ended.setCallback fun _ h => by cases h⟩
  | flags hpc =>
    have hended : (s.setCallback t .flagged).Ended call :=
      hs.ended.setCallback fun _ h => by cases h
    exact ⟨hsound, hs.table, hended⟩
  | cancels b io hpc hio =>
    have hcall : (EventOp.cancelEvent call.fd call.event).call ctl s.io = .ok io := by
      simp [EventOp.call, hio, Except.map]
    obtain ⟨htable, hevents⟩ := IOManager.call_hasEvent hs.table hcall
    refine ⟨hsound, htable, ?_⟩
    intro i hi hfin
    by_cases hit : i = t
    · rw [hit] at hi
      obtain ⟨hadd, hacc⟩ := (hok hi).2 hpc
      refine ⟨hadd, fun hwaits => ?_⟩
      refine IOManager.cancelEvent_hasEvent hs.table hio fun p hslot => ?_
      exact hacc hwaits p (by rw [hslot]; rfl)
    · have hfin' : s.callbacks i = some .finished := (if_neg hit).symm.trans hfin
      obtain ⟨hadd, hnone⟩ := hs.ended i hi hfin'
      exact ⟨hadd, fun hwaits hh => hnone hwaits (hevents _ _ id hh)⟩

/-- **One step.** -/
theorem step_kept (s s' : HookIo κ) (a : HookAct) (hs : s.Kept addr call)
    (hok : s.EndsInTime ctl call a) (h : s.stepOk addr ctl call a = .ok s') : s'.Kept addr call := by
  have hsound := step_sound hs.sound h
  cases a with
  | io n errno => exact moves_kept hs (doIo_moves h)
  | callback t => exact fires_kept hs hok (onTimer_fires h)
  | listExpired now probe =>
    simp only [stepOk] at h
    split at h
    · have hhands := listExpired_hands hs.sound h
      rw [hhands.rest] at hsound ⊢
      refine ⟨hsound, hs.table, ?_⟩
      intro t ht hfin
      rcases hhands.callbacks t with heq | ⟨hstart, -⟩
      · exact hs.ended t ht (heq.symm.trans hfin)
      · rw [show s'.callbacks t = some .finished from hfin] at hstart
        cases hstart
    · cases h
      exact hs
  | timerOp op =>
    simp only [stepOk] at h
    split at h
    · cases h
      exact hs
    · obtain ⟨m, -, rfl⟩ := map_ok h
      exact ⟨hsound, hs.table, hs.ended⟩
  | eventOp op =>
    simp only [stepOk] at h
    split at h
    · cases h
      exact hs
    · rename_i hguard
      obtain ⟨io, hcall, rfl⟩ := map_ok h
      obtain ⟨htable, hevents⟩ := IOManager.call_hasEvent hs.table hcall
      refine ⟨hsound, htable, ?_⟩
      intro t ht hfin
      obtain ⟨hadd, hnone⟩ := hs.ended t ht hfin
      refine ⟨hadd, fun hwaits hh => hnone hwaits (hevents _ _ (fun hadds => ?_) hh)⟩
      -- another thread does not register the event of a call in progress
      refine hguard ⟨hadds, fun henter => ?_⟩
      have hwaits' : s.pc.waits = true := hwaits
      rw [henter] at hwaits'
      cases hwaits'
  | ready b =>
    cases h
    exact ⟨hsound, hs.table, hs.ended⟩
  | tick now =>
    simp only [stepOk] at h
    split at h
    · cases h
      exact ⟨hsound, hs.table, hs.ended⟩
    · cases h
      exact hs

/-- **No timeout is lost** in a run in which no callback of a round ends too early. -/
theorem timeout_kept (addr : ℕ ↪ ℕ) (ctl : EpollCtl κ) (call : IoCall) (now_ms : UInt64) (k : κ)
    (as : List HookAct)
    (hok : Along (step addr ctl call) (fun r a => IfOk (fun s => s.EndsInTime ctl call a) r)
      (.ok (init now_ms k)) as) :
    ∀ r ∈ trace (step addr ctl call) (.ok (init now_ms k)) as, IfOk (fun s => ¬ s.Lost call) r := by
  intro r hr
  have hkept := trace_ok_inv (fun _ _ => rfl) (I := fun s : HookIo κ => s.Kept addr call)
    step_kept as (init_kept now_ms k) hok r hr
  cases r with
  | error e => exact trivial
  | ok s => exact hkept.not_lost

/-- A call of `recv` on a socket with a timeout of 5 ms. -/
def recvCall : IoCall where
  hook_enable := true
  ctx := some { isClose := false, isSocket := true, getUserNonblock := false, getTimeout := 5 }
  fd := 5
  event := .READ
  caller := ⟨some 0, 1, true⟩
  tinfo := 0
  cb := 7

/-- Nothing to receive: the call arms its timer, registers its event and yields, and the timer
expires. -/
def recvExpires : List HookAct :=
  [.io 0 0, .io (-1) EAGAIN, .io 0 0, .io 0 0, .io 0 0, .io 0 0, .tick 5, .listExpired 5 0,
    .callback 0, .callback 0, .callback 0, .callback 0]

theorem timeout_kept_recv :
    IfOk (fun s => ¬ s.Lost recvCall)
      (run (step (.refl ℕ) IOManager.acceptAll recvCall) (.ok (init 0 ())) recvExpires) :=
  timeout_kept (.refl ℕ) IOManager.acceptAll recvCall 0 () recvExpires (by decide) _
    (run_mem_trace _ _)

/-- The timer expires before the call registers its event, and the fiber sleeps on. -/
theorem expires_before_addEvent : ∃ s : HookIo Unit,
    run (step (.refl ℕ) IOManager.acceptAll recvCall) (.ok (init 0 ()))
      [.io 0 0, .io (-1) EAGAIN, .io 0 0, .io 0 0, .tick 5, .listExpired 5 0, .callback 0, .callback 0,
        .callback 0, .callback 0, .io 0 0, .io 0 0] = .ok s ∧
      s.Lost recvCall :=
  ⟨_, rfl, by decide⟩

end HookIo

end Coroutine
