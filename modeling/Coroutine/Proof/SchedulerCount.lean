import Coroutine.Lib.Parties
import Coroutine.Lib.Run
import Coroutine.Proof.SchedulerMoves

/-!
# `m_activeThreadCount`

A worker is busy from its pop to its return from `swapIn`. The pop counts it; the branch
for fibers counts it a second time, and one decrement follows.

* `move_count`: the counter follows the number of busy workers, except in that branch.
* `count_exact_iff`: so it is right throughout a run exactly when no worker of the run takes
  the branch for fibers.
-/

namespace Coroutine

open Lib

/-- The worker has popped a task and not returned from its `swapIn`. -/
def Pc.Busy {W : Type} : Pc W → Bool
  | .picked ft => ft.isSome
  | .task .fixup _ _ | .task .requeue _ _ => false
  | .task _ _ _ => true
  | _ => false

namespace Scheduler

variable {W : Type} {pool : Pool W} {s s' : Scheduler W} {a : SchedAct W}

variable [Fintype W]

/-- The number of busy workers. -/
def busy (s : Scheduler W) : ℕ := ∑ w, (s.worker w).pc.Busy.toNat

/-- **The counter is right**: it is the number of busy workers, so that once `stop()` has
set its two flags an empty queue and no busy worker mean `stopping()`. -/
structure CountExact (s : Scheduler W) : Prop where
  count : s.m_activeThreadCount = s.busy
  stops : s.m_fibers = [] → s.busy = 0 →
    s.m_activeThreadCount = 0 ∧ (s.m_autoStop → s.m_stopping → s.stopping)

theorem countExact_iff : s.CountExact ↔ s.m_activeThreadCount = s.busy := by
  constructor
  · exact CountExact.count
  · intro h
    refine ⟨h, ?_⟩
    intro hempty hbusy
    have h0 : s.m_activeThreadCount = 0 := by omega
    exact ⟨h0, fun ha hs => ⟨ha, hs, hempty, h0⟩⟩

theorem busy_congr (h : s'.worker = s.worker) : s'.busy = s.busy := by
  unfold busy
  rw [h]

/-- A busy worker is counted among the busy ones. -/
theorem busy_pos {w : W} (h : (s.worker w).pc.Busy = true) : 0 < s.busy := by
  have hle : (s.worker w).pc.Busy.toNat ≤ s.busy :=
    Finset.single_le_sum (f := fun v => (s.worker v).pc.Busy.toNat) (fun _ _ => Nat.zero_le _)
      (Finset.mem_univ w)
  rw [h] at hle
  exact hle

variable [DecidableEq W]

/-- **One worker moves**, and the counter with it. -/
theorem count_of_update {w : W} {wk : Worker W} (h : s'.worker = Function.update s.worker w wk)
    (hcount : s'.m_activeThreadCount + (s.worker w).pc.Busy.toNat =
      s.m_activeThreadCount + wk.pc.Busy.toNat) :
    s'.m_activeThreadCount + s.busy = s.m_activeThreadCount + s'.busy := by
  have hsum := sum_change (f := fun v => (s.worker v).pc.Busy.toNat)
    (g := fun v => (s'.worker v).pc.Busy.toNat) (Finset.mem_univ w)
    (fun v _ hv => by rw [h, Function.update_of_ne hv])
  have hw : (s'.worker w).pc = wk.pc := by rw [h, Function.update_self]
  rw [hw] at hsum
  change s'.busy + _ = s.busy + _ at hsum
  omega

/-- The action is a worker's step into the branch for fibers. -/
def TakesFiber (s : Scheduler W) (a : SchedAct W) : Prop :=
  s.fault = none ∧ ∃ w ft f, a = .run w ∧ (s.worker w).pc = .picked (some ft) ∧ ft.task = .fiber f

/-- **A move and the counter.** -/
theorem move_count (h : Move pool s a s') (hle : s.busy ≤ s.m_activeThreadCount) :
    s'.m_activeThreadCount + s.busy = s.m_activeThreadCount + s'.busy ∨
      ∃ w ft f, a = .run w ∧ (s.worker w).pc = .picked (some ft) ∧ ft.task = .fiber f := by
  cases h with
  | fiber w ft f hpc htask => exact Or.inr ⟨w, ft, f, rfl, hpc, htask⟩
  | stay => exact Or.inl rfl
  | abort => exact Or.inl rfl
  | callOut c =>
    have hf := call_frame s none c
    left; rw [hf.active, busy_congr hf.worker]
  | callIn w f b c hpc =>
    have hf := call_frame s (some w) c
    left; rw [hf.active, busy_congr hf.worker]
  | stop =>
    have hf := stopStep_frame pool s
    left; rw [hf.active, busy_congr hf.worker]
  | back w f b hpc =>
    -- the worker itself is counted, so the decrement is exact
    have hpos := busy_pos (s := s) (w := w) (by rw [hpc]; rfl)
    left
    refine count_of_update rfl ?_
    rw [hpc]
    show s.m_activeThreadCount - 1 + 1 = s.m_activeThreadCount
    omega
  | save w f b ctx hpc => exact Or.inl (count_of_update rfl (by rw [hpc]; rfl))
  | _ => exact Or.inl (count_of_update rfl (by
      simp [*, Pc.Busy, setPc, setWorker, setFiber, setState, newFiber, push]))

/-- The counter, once right, stays right in exactly the steps that do not take the branch
for fibers. -/
theorem step_exact_iff (hs : s.CountExact) (a : SchedAct W) :
    (step pool s a).CountExact ↔ ¬ s.TakesFiber a := by
  have heq := hs.count
  rw [countExact_iff]
  constructor
  · rintro h ⟨hf, w, ft, f, rfl, hpc, htask⟩
    -- the branch counts the worker again, and it was counted at its pop
    have hstep : step pool s (.run w) = { s.setPc w (.task .enter f .fiber) with
        m_activeThreadCount := s.m_activeThreadCount + 1 } := by
      have hguard : (s.fiber f).m_state ≠ .TERM ∨ (s.fiber f).m_state ≠ .EXCEPT := by
        cases (s.fiber f).m_state <;> simp
      simp [step, hf, runStep, hpc, take, htask, hguard]
    have hworker : (s.setPc w (.task .enter f .fiber)).worker =
      Function.update s.worker w { s.worker w with pc := .task .enter f .fiber } := rfl
    have hsame := count_of_update hworker (by rw [hpc]; rfl)
    rw [hstep] at h
    change s.m_activeThreadCount + 1 = (s.setPc w (.task .enter f .fiber)).busy at h
    change s.m_activeThreadCount + _ = _ at hsame
    omega
  · intro hno
    by_cases hf : s.fault = none
    · rcases move_count (step_move pool s a) (by omega) with h | h
      · omega
      · exact absurd ⟨hf, h⟩ hno
    · rw [step_of_fault hf]
      exact heq

theorem init_exact (pool : Pool W) : (init pool).CountExact := by
  rw [countExact_iff]
  symm
  apply Finset.sum_eq_zero
  intro w _
  show Bool.toNat (Pc.Busy (if _ then _ else _)) = 0
  split <;> rfl

/-- **`m_activeThreadCount` is right in every state of a run if and only if no worker of
the run takes the branch for fibers.** -/
theorem count_exact_iff {W : Type} [Fintype W] [DecidableEq W] (pool : Pool W)
    (acts : List (SchedAct W)) :
    (∀ s ∈ trace (step pool) (init pool) acts, s.CountExact) ↔
      Along (step pool) (fun s a => ¬ s.TakesFiber a) (init pool) acts :=
  forall_trace_iff (fun _ a hs => step_exact_iff hs a) acts (init_exact pool)

/-- One thread, not the caller's. -/
def oneThread : Pool Unit := { tid := fun _ => 100, root := none }

/-- A fiber is scheduled and runs to its end; then `stop()` sets its flags. -/
def oneFiber : List (SchedAct Unit) :=
  [.call (.newFiber (some 7)), .call (.scheduler (some (.fiber 0)) (-1)), .run (), .run (), .run (),
    .run (), .user () .finish, .run (), .run (), .run (), .stop, .stop]

/-- The queue is empty and nobody is busy, but the counter is 1 and the scheduler never
stops. -/
theorem one_fiber_leaves_one :
    let s := run (step oneThread) (init oneThread) oneFiber
    s.m_fibers = [] ∧ s.busy = 0 ∧ s.m_activeThreadCount = 1 ∧ s.m_autoStop ∧ s.m_stopping ∧
      ¬ s.stopping ∧ ¬ ∀ s ∈ trace (step oneThread) (init oneThread) oneFiber, s.CountExact := by
  intro s
  have hcount : s.m_activeThreadCount = 1 := by decide
  have hbusy : s.busy = 0 := by decide
  refine ⟨by decide, hbusy, hcount, by decide, by decide, by decide, ?_⟩
  intro h
  have hexact : s.CountExact := h s (mem_trace.2 ⟨oneFiber, List.prefix_rfl, rfl⟩)
  have heq := hexact.count
  omega

end Scheduler

end Coroutine
