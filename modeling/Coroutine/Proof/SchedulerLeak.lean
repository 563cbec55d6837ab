import Coroutine.Proof.SchedulerCount
import Coroutine.Proof.SchedulerStop

/-!
# A scheduler that has executed a fiber cannot be stopped

The branch of `run()` for fibers counts the worker a second time, and takes one off.

* `active_count`: in every state `m_activeThreadCount` is the number of busy workers, and one for
  each fiber that was ever taken.
* `never_stops`: so after a fiber that was taken before `stop()` is called, whatever follows,
  `stopping()` does not hold, no worker leaves `run()`, and `stop()` does not return.
-/

namespace Coroutine

open Lib

/-- The entry is a fiber. -/
def FiberAndThread.isFiber {W : Type} (ft : FiberAndThread W) : Bool := ft.task.fiber?.isSome

/-- The worker has taken a fiber, and has not counted it yet. -/
def Pc.uncounted {W : Type} : Pc W → Bool
  | .picked (some ft) => ft.isFiber
  | _ => false

/-- A worker that has still to count its fiber is busy. -/
theorem Pc.uncounted_le_busy {W : Type} (pc : Pc W) : pc.uncounted.toNat ≤ pc.Busy.toNat := by
  cases pc with
  | picked ft =>
    cases ft with
    | none => exact Nat.le_refl _
    | some ft => exact Bool.toNat_le _
  | _ => exact Nat.zero_le _

namespace Scheduler

variable {W : Type} {pool : Pool W} {s s' : Scheduler W} {a : SchedAct W}

/-- The fibers taken from the queue so far, each as often as it was taken. -/
def fibersTaken (s : Scheduler W) : ℕ := s.popped.countP (·.isFiber)

theorem fibersTaken_congr (h : s'.popped = s.popped) : s'.fibersTaken = s.fibersTaken := by
  unfold fibersTaken
  rw [h]

variable [Fintype W]

/-- The workers that have taken a fiber, and have not counted it yet. -/
def uncounted (s : Scheduler W) : ℕ := ∑ w, (s.worker w).pc.uncounted.toNat

/-- **What the counter is.** -/
def Accounted (s : Scheduler W) : Prop :=
  s.m_activeThreadCount + s.uncounted = s.busy + s.fibersTaken

theorem accounted_congr (hs : s.Accounted) (hworker : s'.worker = s.worker)
    (hactive : s'.m_activeThreadCount = s.m_activeThreadCount) (hpopped : s'.popped = s.popped) :
    s'.Accounted := by
  unfold Accounted uncounted busy
  rw [hworker, hactive, fibersTaken_congr hpopped]
  exact hs

theorem uncounted_le_busy : s.uncounted ≤ s.busy :=
  Finset.sum_le_sum fun w _ => (s.worker w).pc.uncounted_le_busy

/-- The counter is at least the number of fibers taken. -/
theorem fibersTaken_le (hs : s.Accounted) : s.fibersTaken ≤ s.m_activeThreadCount := by
  have hle := uncounted_le_busy (s := s)
  unfold Accounted at hs
  omega

variable [DecidableEq W]

/-- **One worker moves.** -/
theorem accounted_of_update (hs : s.Accounted) {w : W} {wk : Worker W}
    (h : s'.worker = Function.update s.worker w wk)
    (hcount : s'.m_activeThreadCount + wk.pc.uncounted.toNat + (s.worker w).pc.Busy.toNat +
        s.fibersTaken = s.m_activeThreadCount + (s.worker w).pc.uncounted.toNat +
        wk.pc.Busy.toNat + s'.fibersTaken) : s'.Accounted := by
  have hbusy := sum_change (f := fun v => (s.worker v).pc.Busy.toNat)
    (g := fun v => (s'.worker v).pc.Busy.toNat) (Finset.mem_univ w)
    (fun v _ hv => by rw [h, Function.update_of_ne hv])
  have huncounted := sum_change (f := fun v => (s.worker v).pc.uncounted.toNat)
    (g := fun v => (s'.worker v).pc.uncounted.toNat) (Finset.mem_univ w)
    (fun v _ hv => by rw [h, Function.update_of_ne hv])
  have hw : (s'.worker w).pc = wk.pc := by rw [h, Function.update_self]
  rw [hw] at hbusy huncounted
  change s'.busy + _ = s.busy + _ at hbusy
  change s'.uncounted + _ = s.uncounted + _ at huncounted
  unfold Accounted at hs ⊢
  omega

/-- **Every move keeps the account.** -/
theorem move_accounted (hs : s.Accounted) (h : Move pool s a s') : s'.Accounted := by
  cases h with
  | stay => exact hs
  | abort => exact hs
  | callOut c =>
    have hf := call_frame s none c
    exact accounted_congr hs hf.worker hf.active hf.popped
  | callIn w f b c hpc =>
    have hf := call_frame s (some w) c
    exact accounted_congr hs hf.worker hf.active hf.popped
  | stop =>
    have hf := stopStep_frame pool s
    exact accounted_congr hs hf.worker hf.active hf.popped
  | pop w ft hpc hfind =>
    refine accounted_of_update hs rfl ?_
    have htaken : (s.popped ++ [ft]).countP (·.isFiber) = s.fibersTaken + ft.isFiber.toNat := by
      rw [List.countP_append]
      unfold fibersTaken
      cases hfiber : ft.isFiber <;> simp [hfiber]
    rw [hpc]
    show s.m_activeThreadCount + 1 + ft.isFiber.toNat + 0 + s.fibersTaken =
      s.m_activeThreadCount + 0 + 1 + (s.popped ++ [ft]).countP (·.isFiber)
    omega
  | fiber w ft f hpc htask =>
    -- counted a second time
    refine accounted_of_update hs rfl ?_
    have hfiber : ft.isFiber = true := by
      unfold FiberAndThread.isFiber
      rw [htask]
      rfl
    have huncounted : (s.worker w).pc.uncounted = true := by
      rw [hpc]
      exact hfiber
    have hbusy : (s.worker w).pc.Busy = true := by
      rw [hpc]
      rfl
    rw [huncounted, hbusy]
    show s.m_activeThreadCount + 1 + 0 + 1 + s.fibersTaken =
      s.m_activeThreadCount + 1 + 1 + s.fibersTaken
    omega
  | recycle w ft cb f hpc htask hslot hreset =>
    refine accounted_of_update hs rfl ?_
    have huncounted : (s.worker w).pc.uncounted = false := by
      rw [hpc]
      simp [Pc.uncounted, FiberAndThread.isFiber, htask, FiberOrcb.fiber?]
    rw [huncounted, hpc]
    rfl
  | create w ft cb hpc htask hslot =>
    refine accounted_of_update hs rfl ?_
    have huncounted : (s.worker w).pc.uncounted = false := by
      rw [hpc]
      simp [Pc.uncounted, FiberAndThread.isFiber, htask, FiberOrcb.fiber?]
    rw [huncounted, hpc]
    rfl
  | back w f b hpc =>
    -- the worker is busy and has nothing left to count, so the decrement is exact
    have hlt : s.uncounted < s.busy := by
      refine Finset.sum_lt_sum (fun v _ => (s.worker v).pc.uncounted_le_busy) ⟨w, Finset.mem_univ w, ?_⟩
      rw [hpc]
      exact Nat.zero_lt_one
    have hactive : 0 < s.m_activeThreadCount := by
      unfold Accounted at hs
      omega
    refine accounted_of_update hs rfl ?_
    rw [hpc]
    show s.m_activeThreadCount - 1 + 0 + 1 + s.fibersTaken = s.m_activeThreadCount + 0 + 0 + s.fibersTaken
    omega
  | save w f b ctx hpc => exact accounted_of_update hs rfl (by rw [hpc]; rfl)
  | _ => exact accounted_of_update hs rfl (by
      simp [*, Pc.Busy, Pc.uncounted, setPc, setWorker, setFiber, setState, push, fibersTaken])

theorem init_accounted (pool : Pool W) : (init pool).Accounted := by
  have hbusy : (init pool).busy = 0 := (init_exact pool).count.symm
  have hle := uncounted_le_busy (s := init pool)
  unfold Accounted
  show 0 + _ = _ + 0
  omega

/-- **In every state of every run** the counter is the number of busy workers, and one for each
fiber that was taken and counted. -/
theorem active_count (pool : Pool W) (acts : List (SchedAct W)) :
    (run (step pool) (init pool) acts).Accounted :=
  run_inv (fun s a hs => move_accounted hs (step_move pool s a)) acts _ (init_accounted pool)

/-! ## Stopping -/

/-- Before `stop()` is called only the threads take entries. -/
def Manned (pool : Pool W) (s : Scheduler W) : Prop :=
  s.popped ≠ [] → s.stopPc = .out → ∃ w, pool.root ≠ some w

theorem move_manned (hs : s.Manned pool) (h : Move pool s a s') (hstops : s'.Stops pool) :
    s'.Manned pool := by
  intro hpopped hout
  have hout' : s.stopPc = .out := by
    rcases move_flags h with ⟨-, rfl⟩ | ⟨heq, -, -⟩
    · exact absurd hout (stopStep_called pool s)
    · rw [← heq]
      exact hout
  rcases move_popped h with heq | ⟨w, ft, -, hpc, -⟩
  · exact hs (heq ▸ hpopped) hout'
  · refine ⟨w, fun hroot => ?_⟩
    have hrest := hstops.root (by rw [hout]; simp) w hroot
    rw [hpc] at hrest
    cases hrest

/-- **A scheduler that cannot be stopped.** -/
structure Stuck (pool : Pool W) (s : Scheduler W) : Prop where
  accounted : s.Accounted
  taken : 0 < s.fibersTaken
  /-- no idle fiber has ended -/
  idle : ∀ w, (s.worker w).idle ≠ .TERM
  exited : ∀ w, (s.worker w).pc ≠ .exited
  thread : ∃ w, pool.root ≠ some w
  done : s.stopPc ≠ .done

omit [DecidableEq W] in
theorem Stuck.not_stopping (hs : s.Stuck pool) : ¬ s.stopping := by
  rintro ⟨-, -, -, hzero⟩
  have hle := fibersTaken_le hs.accounted
  have hpos := hs.taken
  omega

/-- What was taken stays taken. -/
theorem move_taken (h : Move pool s a s') : s.fibersTaken ≤ s'.fibersTaken := by
  unfold fibersTaken
  rcases move_popped h with heq | ⟨w, ft, -, -, heq⟩
  · rw [heq]
  · rw [heq, List.countP_append]
    exact Nat.le_add_right _ _

/-- **And it stays so**, whatever happens. -/
theorem move_stuck (hs : s.Stuck pool) (h : Move pool s a s') : s'.Stuck pool := by
  have hidle : ∀ w, (s'.worker w).idle ≠ .TERM := by
    intro w hterm
    rcases move_idle h hterm with hold | hstop
    · exact hs.idle w hold
    · exact hs.not_stopping hstop
  have hexited : ∀ w, (s'.worker w).pc ≠ .exited := by
    intro w hpc
    exact hidle w (move_exited (fun v hv => absurd hv (hs.exited v)) h w hpc)
  refine ⟨move_accounted hs.accounted h, ?_, hidle, hexited, hs.thread, ?_⟩
  · exact Nat.lt_of_lt_of_le hs.taken (move_taken h)
  · intro hdone
    rcases move_flags h with ⟨-, rfl⟩ | ⟨heq, -, -⟩
    · have hmove := stopStep_move pool s
      generalize s.stopStep pool = s' at hdone hmove
      cases hmove with
      | testEarly hpc hstop => exact hs.not_stopping hstop
      | join hpc hexit =>
        -- a thread has not left
        obtain ⟨w, hw⟩ := hs.thread
        rcases hexit w with hroot | hpc
        · exact hw hroot
        · exact hs.exited w hpc
      | wait hpc => exact hs.done hdone
      | _ => cases hdone
    · rw [heq] at hdone
      exact hs.done hdone

/-- **Once a fiber was taken before `stop()` is called, the scheduler cannot be stopped**: whatever
the workers, the tasks, other threads and the thread in `stop()` do from there on. -/
theorem never_stops {W : Type} [Fintype W] [DecidableEq W] [Nonempty W] (pool : Pool W)
    (acts later : List (SchedAct W)) (hout : (run (step pool) (init pool) acts).stopPc = .out)
    (hfiber : ∃ ft ∈ (run (step pool) (init pool) acts).popped, ft.isFiber) :
    ∀ s ∈ trace (step pool) (run (step pool) (init pool) acts) later,
      ¬ s.stopping ∧ s.stopPc ≠ .done ∧ ∀ w, (s.worker w).pc ≠ .exited := by
  have hstart : (run (step pool) (init pool) acts).Stops pool ∧
      (run (step pool) (init pool) acts).Manned pool := by
    refine run_inv (I := fun s : Scheduler W => s.Stops pool ∧ s.Manned pool) ?_ acts _
      ⟨init_stops pool, fun hpopped => absurd rfl hpopped⟩
    rintro s a ⟨hstops, hmanned⟩
    have hstops' := move_stops hstops (step_move pool s a)
    exact ⟨hstops', move_manned hmanned (step_move pool s a) hstops'⟩
  have haccounted := active_count pool acts
  generalize run (step pool) (init pool) acts = t at hout hfiber hstart haccounted
  obtain ⟨hstops, hmanned⟩ := hstart
  have hidle : ∀ w, (t.worker w).idle ≠ .TERM := fun w hterm => (hstops.idle w hterm).called hout
  have hstuck : t.Stuck pool := by
    refine ⟨haccounted, ?_, hidle, fun w hpc => hidle w (hstops.exited w hpc), ?_, ?_⟩
    · exact List.countP_pos_iff.2 hfiber
    · obtain ⟨ft, hft, -⟩ := hfiber
      exact hmanned (List.ne_nil_of_mem hft) hout
    · rw [hout]
      simp
  intro s hs
  have hs' : s.Stuck pool := by
    obtain ⟨bs, -, rfl⟩ := mem_trace.1 hs
    exact run_inv (fun s a hs => move_stuck hs (step_move pool s a)) bs _ hstuck
  exact ⟨hs'.not_stopping, hs'.done, hs'.exited⟩

/-- One fiber has run to its end; `stop()` is called, and the thread goes round and round. -/
theorem never_stops_one_fiber :
    let s := run (step oneThread) (init oneThread) (oneFiber.take 10)
    ∀ s' ∈ trace (step oneThread) s (List.replicate 2 .stop ++ List.replicate 20 (.run ())),
      ¬ s'.stopping ∧ s'.stopPc ≠ .done ∧ ∀ w, (s'.worker w).pc ≠ .exited :=
  never_stops oneThread (oneFiber.take 10) _ (by decide) (by decide)

end Scheduler

end Coroutine
