import Coroutine.Proof.SchedulerFinished
import Coroutine.Spec.SchedulerParts

/-!
# No finished fiber is resumed

The guard of the branch for fibers, `state != TERM || state != EXCEPT`, lets every fiber through
whose state does not change between its two reads, so `run()` swaps in whatever it popped. A fiber
that has ended can still be in the queue, or in the hand of a worker that popped it before; and a
fix-up that has read the state of a fiber before it ended writes `HOLD` after it.

* `Orderly`: a step takes no finished fiber from the queue, ends no fiber that another worker is
  about to execute, writes `HOLD` to no finished fiber, and `INIT` to none that another worker is
  on or that has ended since its context was made.
* `step_sane`: orderly steps keep `Live`.
* `never_resumed`: so in a run of orderly steps no finished fiber is swapped in, and the
  assertion at the end of `MainFunc` is not reached.
* `held_over_term`: with all but the write of `HOLD` orderly it is.
* `run_parts`: every run of `Scheduler` is one of these, in which nobody moves between the parts of
  a step.
-/

namespace Coroutine

open Lib

namespace PartScheduler

variable {W : Type} {pool : Pool W} {s : PartScheduler W} {a : SchedAct W} {w : W}

/-- The fiber that the next step of worker `w` takes from the queue. -/
def pops (s : PartScheduler W) (w : W) : Option FiberPtr :=
  match (s.sched.worker w).pc, s.part w with
  | .scan, .erase n => s.sched.m_fibers[n]?.bind (·.task.fiber?)
  | _, _ => none

/-- The fiber whose body ends in the step: it has returned, throws, or was started empty. -/
def ends (s : PartScheduler W) : SchedAct W → Option FiberPtr
  | .run w =>
    match (s.sched.worker w).pc with
    | .task .running f _ => if s.part w = .term then some f else none
    | _ => s.sched.ends (.run w)
  | .user w .throw => if s.part w = .term then none else s.sched.ends (.user w .throw)
  | _ => none

/-- The fiber to which the next step of worker `w` writes `HOLD`. -/
def holds (s : PartScheduler W) (w : W) : Option FiberPtr :=
  match (s.sched.worker w).pc, s.part w with
  | .task .fixup f _, .hold => some f
  | _, _ => none

/-- The fiber to which the next step of worker `w`, in `reset`, writes `INIT`. -/
def inits (s : PartScheduler W) (w : W) : Option FiberPtr :=
  match (s.sched.worker w).pc, s.part w with
  | .picked (some _), .resetState => (s.sched.worker w).cb_fiber
  | .task .fixup f _, .resetState => some f
  | _, _ => none

/-- No other worker has taken the fiber. -/
def Alone (s : PartScheduler W) (w : W) (f : FiberPtr) : Prop :=
  ∀ w', w' ≠ w → (s.sched.worker w').pc.taken ≠ some f

/-- **An orderly step** takes no finished fiber from the queue, ends no fiber another worker has
taken, writes `HOLD` to no finished fiber, and `INIT` to none that another worker is on or that has
ended since its context was made. -/
def Orderly (s : PartScheduler W) : SchedAct W → Prop
  | .run w =>
    (∀ f ∈ s.pops w, ¬ (s.sched.fiber f).Finished) ∧
    (∀ f ∈ s.ends (.run w), s.Alone w f) ∧
    (∀ f ∈ s.holds w, ¬ (s.sched.fiber f).Finished) ∧
    ∀ f ∈ s.inits w, (s.sched.fiber f).m_ctx ≠ .ended ∧
      ∀ w', w' ≠ w → (s.sched.worker w').pc.on ≠ some f
  | .user w u => ∀ f ∈ s.ends (.user w u), s.Alone w f
  | _ => True

instance [DecidableEq W] [Fintype W] (s : PartScheduler W) : DecidablePred s.Orderly
  | .run w =>
    have : ∀ f, Decidable (s.Alone w f) := fun _ => inferInstanceAs (Decidable (∀ _, _))
    inferInstanceAs (Decidable (_ ∧ _ ∧ _ ∧ _))
  | .user w _ =>
    have : ∀ f, Decidable (s.Alone w f) := fun _ => inferInstanceAs (Decidable (∀ _, _))
    inferInstanceAs (Decidable (∀ _ ∈ _, _))
  | .call _ => isTrue trivial
  | .stop => isTrue trivial

variable {t t' : Scheduler W}

section

variable [DecidableEq W]

variable [Fintype W]

end

open Scheduler (twoThreads)

/-- A fiber yields on one thread and is finished by the other. -/
def handedOver : List (SchedAct Bool) :=
  [.call (.newFiber (some 7)), .call (.scheduler (some (.fiber 0)) (-1))] ++
    List.replicate 7 (.run true) ++ [.user true .yieldToReady] ++ List.replicate 4 (.run true) ++
    List.replicate 7 (.run false) ++ [.user false .finish, .run false]

/-- A fiber yields, and the fix-up of its thread has read its state; the other thread takes it and
runs it to its end. -/
def heldLate : List (SchedAct Bool) :=
  [.call (.newFiber (some 7)), .call (.scheduler (some (.fiber 0)) (-1))] ++
    List.replicate 7 (.run true) ++ [.user true .yieldToHold] ++ List.replicate 5 (.run true) ++
    [.call (.scheduler (some (.fiber 0)) (-1))] ++ List.replicate 7 (.run false) ++
    [.user false .finish] ++ List.replicate 5 (.run false)

/-- It is scheduled again. -/
def scheduledAgain : List (SchedAct Bool) :=
  .call (.scheduler (some (.fiber 0)) (-1)) :: List.replicate 7 (.run true)

/-- **The fix-up writes `HOLD` over `TERM`.** No other step is out of order, and the assertion at
the end of `MainFunc` fails. -/
theorem held_over_term :
    let s := run (step twoThreads) (whole (.init twoThreads)) heldLate
    let s' := step twoThreads s (.run true)
    Along (step twoThreads) Orderly (whole (.init twoThreads)) heldLate ∧
      s.holds true = some 0 ∧ (s.sched.fiber 0).m_state = .TERM ∧
      Along (step twoThreads) Orderly s' scheduledAgain ∧
      (run (step twoThreads) s' scheduledAgain).sched.fault = some .assertion := by
  decide

/-! ## Steps that nobody interrupts -/

section

variable [DecidableEq W]

/-- Worker `w` is at part `p` of a step, nobody else is in one. -/
def amid (t : Scheduler W) (w : W) (p : Part) (m_mutex : Option W) : PartScheduler W :=
  { sched := t, part := Function.update (fun _ => .first) w p, m_mutex := m_mutex }

theorem whole_eq_amid (t : Scheduler W) (w : W) : whole t = amid t w .first none := by
  unfold whole amid
  rw [Function.update_eq_self]

@[simp] theorem amid_part (t : Scheduler W) (w : W) (p : Part) (m : Option W) :
    (amid t w p m).part w = p := by
  simp [amid]

@[simp] theorem amid_go (t : Scheduler W) (w : W) (p q : Part) (m : Option W) :
    (amid t w p m).go w q = amid t w q m := by
  unfold go amid
  rw [Function.update_idem]

@[simp] theorem amid_write (t : Scheduler W) (w : W) (p q : Part) (m : Option W) (f : FiberPtr)
    (fb : Fiber) : (amid t w p m).write w f fb q = amid (t.setFiber f fb) w q m := by
  unfold write
  rw [amid_go]
  rfl

@[simp] theorem amid_leave (t : Scheduler W) (w : W) (p : Part) (sched : Scheduler W) :
    (amid t w p none).leave w sched = whole sched := by
  unfold leave amid whole
  rw [Function.update_idem, Function.update_eq_self]

@[simp] theorem amid_unlock (t : Scheduler W) (w : W) (p : Part) (m : Option W)
    (sched : Scheduler W) : ((amid t w p m).leave w sched).unlock = whole sched := by
  unfold leave amid unlock whole
  rw [Function.update_idem, Function.update_eq_self]

@[simp] theorem amid_sched (t : Scheduler W) (w : W) (p : Part) (m : Option W) :
    (amid t w p m).sched = t := rfl

@[simp] theorem amid_state (t : Scheduler W) (w : W) (p : Part) (m : Option W) (f : FiberPtr) :
    (amid t w p m).state f = (t.fiber f).m_state := rfl

/-- Worker `w` waits for nobody, since nobody else is in the section under the mutex. -/
theorem amid_step [Fintype W] (pool : Pool W) {w : W} {m : Option W} (hfault : t.fault = none)
    (hm : m = none ∨ m = some w) (p : Part) :
    (amid t w p m).step pool (.run w) = (amid t w p m).runStep pool w := by
  have hwaits : (amid t w p m).waits (.run w) = false := by
    unfold waits
    rcases hm with rfl | rfl
    · rfl
    · simp [amid]
  unfold step
  rw [if_neg (by simp [hfault, hwaits])]

/-- **One more part** of a worker's step. -/
theorem amid_head [Fintype W] {w : W} {m : Option W} {p : Part} {u v : PartScheduler W}
    (hfault : t.fault = none) (hm : m = none ∨ m = some w)
    (h : (amid t w p m).runStep pool w = u) (h' : Reaches (step pool) u v) :
    Reaches (step pool) (amid t w p m) v :=
  .head ((amid_step pool hfault hm p).trans h) h'

/-- **The section under the mutex**, from the entries that are left. -/
theorem look_parts [Fintype W] (pool : Pool W) (hfault : t.fault = none)
    (hpc : (t.worker w).pc = .scan) (before rest : List (FiberAndThread W))
    (hq : t.m_fibers = before ++ rest) (hnot : ∀ ft ∈ before, t.takes (pool.tid w) ft = false) :
    Reaches (step pool) (amid t w (.look before.length) (some w))
      (whole (t.scan (pool.tid w) w)) := by
  have hstep : ∀ p, (amid t w p (some w)).runStep pool w = (amid t w p (some w)).scan (pool.tid w) w := by
    intro p
    unfold runStep
    rw [amid_sched, hpc]
  induction rest generalizing before with
  | nil =>
    refine amid_head hfault (.inr rfl) ((hstep _).trans ?_) (.refl _)
    have hfind : t.m_fibers.find? (t.takes (pool.tid w)) = none := by
      rw [hq, List.append_nil, List.find?_eq_none]
      intro ft hft
      rw [hnot ft hft]
      exact Bool.false_ne_true
    have hend : t.m_fibers[before.length]? = none := by simp [hq]
    unfold scan Scheduler.scan
    simp [hend, hfind]
  | cons ft rest ih =>
    have hget : t.m_fibers[before.length]? = some ft := by simp [hq]
    cases htakes : t.takes (pool.tid w) ft with
    | false =>
      have hlook : (amid t w (.look before.length) (some w)).runStep pool w =
          amid t w (.look (before ++ [ft]).length) (some w) := by
        rw [hstep]
        unfold scan
        simp [hget, htakes]
      refine amid_head hfault (.inr rfl) hlook (ih (before ++ [ft]) (by simp [hq]) ?_)
      intro g hg
      rcases List.mem_append.1 hg with hg | hg
      · exact hnot g hg
      · rw [List.mem_singleton.1 hg]; exact htakes
    | true =>
      have hlook : (amid t w (.look before.length) (some w)).runStep pool w =
          amid t w (.erase before.length) (some w) := by
        rw [hstep]
        unfold scan
        simp [hget, htakes]
      refine amid_head hfault (.inr rfl) hlook
        (amid_head hfault (.inr rfl) ((hstep _).trans ?_) (.refl _))
      have hmiss : before.find? (t.takes (pool.tid w)) = none := by
        rw [List.find?_eq_none]
        intro g hg
        rw [hnot g hg]
        exact Bool.false_ne_true
      have hfind : t.m_fibers.find? (t.takes (pool.tid w)) = some ft := by
        rw [hq, List.find?_append, hmiss, Option.none_or, List.find?_cons_of_pos htakes]
      have herase : t.m_fibers.eraseIdx before.length = t.m_fibers.eraseP (t.takes (pool.tid w)) := by
        rw [hq, List.eraseIdx_append_of_length_le le_rfl, Nat.sub_self, List.eraseIdx_cons_zero,
          List.eraseP_append_right _ (fun g hg => by rw [hnot g hg]; exact Bool.false_ne_true),
          List.eraseP_cons_of_pos htakes]
      unfold scan Scheduler.scan
      simp [hget, hfind, herase]

omit [DecidableEq W] in
/-- The writes of `reset`, one on the other. -/
theorem reset_writes (t : Scheduler W) (f : FiberPtr) (cb : Option Job) :
    ((t.setFiber f { t.fiber f with m_cb := cb }).setFiber f
        { (t.setFiber f { t.fiber f with m_cb := cb }).fiber f with m_ctx := .entry }).setState f
      .INIT = t.setFiber f (Fiber.reset cb) := by
  simp [Scheduler.setState, Scheduler.setFiber, Fiber.reset]

/-- **`reset`**: its assertion, and its writes. -/
theorem reset_parts [Fintype W] (pool : Pool W) {f : FiberPtr} (pc : Pc W) (cb : Option Job)
    {p : Part} (hfault : t.fault = none) (hp : p = .first ∨ p = .resetTerm)
    (hrun : ∀ (t' : Scheduler W) q, t'.worker = t.worker →
      q ∈ [p, .resetInit, .resetExcept, .resetCb, .resetCtx, .resetState] →
        (amid t' w q none).runStep pool w = (amid t' w q none).reset w f cb pc) :
    Reaches (step pool) (amid t w p none)
      (whole (if (t.fiber f).resettable then (t.setFiber f (Fiber.reset cb)).setPc w pc
        else t.abort .assertion)) := by
  have hwrites : Reaches (step pool) (amid t w .resetCb none)
      (whole ((t.setFiber f (Fiber.reset cb)).setPc w pc)) := by
    refine amid_head hfault (.inl rfl) (hrun t _ rfl (by simp)) ?_
    simp only [reset, amid_part, amid_write, amid_sched]
    refine amid_head hfault (.inl rfl) (hrun _ _ rfl (by simp)) ?_
    simp only [reset, amid_part, amid_write, amid_sched]
    refine amid_head hfault (.inl rfl) (hrun _ _ rfl (by simp)) ?_
    simp only [reset, amid_part, amid_leave, amid_sched]
    rw [reset_writes]
    exact .refl _
  -- the assertion holds at its first, second or third test, or fails
  have hfirst : (amid t w p none).reset w f cb pc =
      (amid t w p none).go w (if (t.fiber f).m_state = .TERM then .resetCb else .resetInit) := by
    rcases hp with rfl | rfl <;> simp only [reset, amid_part] <;> rfl
  refine amid_head hfault (.inl rfl) ((hrun t p rfl (by simp)).trans hfirst) ?_
  rw [amid_go]
  by_cases hterm : (t.fiber f).m_state = .TERM
  · rw [if_pos hterm, if_pos (show (t.fiber f).resettable from .inl hterm)]
    exact hwrites
  rw [if_neg hterm]
  refine amid_head hfault (.inl rfl) (hrun t _ rfl (by simp)) ?_
  by_cases hinit : (t.fiber f).m_state = .INIT
  · simp only [reset, amid_part, amid_state, amid_go, hinit, if_true]
    rw [if_pos (show (t.fiber f).resettable from .inr (.inl hinit))]
    exact hwrites
  simp only [reset, amid_part, amid_state, amid_go, hinit, if_false]
  refine amid_head hfault (.inl rfl) (hrun t _ rfl (by simp)) ?_
  by_cases hexcept : (t.fiber f).m_state = .EXCEPT
  · simp only [reset, amid_part, amid_state, amid_go, hexcept, if_true]
    rw [if_pos (show (t.fiber f).resettable from .inr (.inr hexcept))]
    exact hwrites
  · have hnot : ¬ (t.fiber f).resettable := by rintro (h | h | h) <;> contradiction
    simp only [reset, amid_part, amid_state, amid_leave, amid_sched, hexcept, if_false]
    rw [if_neg hnot]
    exact .refl _

/-- **`run()` with an entry in hand.** -/
theorem take_parts [Fintype W] (pool : Pool W) {ft : FiberAndThread W} (hfault : t.fault = none)
    (hpc : (t.worker w).pc = .picked (some ft)) :
    Reaches (step pool) (amid t w .first none) (whole (t.take w ft)) := by
  have hrun : ∀ (t' : Scheduler W) p, t'.worker = t.worker →
      (amid t' w p none).runStep pool w = (amid t' w p none).take w ft := by
    intro t' p hworker
    unfold runStep
    rw [amid_sched, hworker, hpc]
  cases htask : ft.task with
  | fiber f =>
    have hguard : (t.fiber f).m_state ≠ .TERM ∨ (t.fiber f).m_state ≠ .EXCEPT := by
      by_cases hterm : (t.fiber f).m_state = .TERM
      · exact .inr (by rw [hterm]; decide)
      · exact .inl hterm
    refine amid_head hfault (.inl rfl) (hrun t _ rfl) ?_
    unfold Scheduler.take
    simp only [take, htask, amid_part, amid_state, amid_sched, amid_leave, amid_go]
    rw [if_pos hguard]
    by_cases hterm : (t.fiber f).m_state = .TERM
    · rw [if_neg (not_not.2 hterm)]
      refine amid_head hfault (.inl rfl) (hrun t _ rfl) ?_
      simp only [take, htask, amid_part, amid_state, amid_sched, amid_leave]
      rw [if_pos (by rw [hterm]; decide)]
      exact .refl _
    · rw [if_pos hterm]
      exact .refl _
  | cb cb =>
    cases hslot : (t.worker w).cb_fiber with
    | some c =>
      have hreset := reset_parts pool (w := w) (f := c) (.task .enter c .cb)
        (some { cb := cb, serial := some ft.serial }) hfault (.inl rfl)
        (fun t' q hworker _ => by
          rw [hrun t' q hworker]
          unfold take
          simp only [htask, amid_sched, hworker, hslot])
      unfold Scheduler.take
      simp only [htask, hslot]
      exact hreset
    | none =>
      refine amid_head hfault (.inl rfl) (hrun t _ rfl) ?_
      simp only [take, htask, amid_sched, hslot, amid_leave]
      exact .refl _

/-- **The fix-up.** -/
theorem fixup_parts [Fintype W] (pool : Pool W) {f : FiberPtr} {b : Branch} (hfault : t.fault = none)
    (hpc : (t.worker w).pc = .task .fixup f b) :
    Reaches (step pool) (amid t w .first none) (whole (t.fixup w f b)) := by
  have hrun : ∀ (t' : Scheduler W) p, t'.worker = t.worker →
      (amid t' w p none).runStep pool w = (amid t' w p none).fixup w f b := by
    intro t' p hworker
    unfold runStep
    rw [amid_sched, hworker, hpc]
  -- a fiber that has ended, whichever test finds it so
  have hended : ∀ p, (t.fiber f).Finished → Reaches (step pool) ((amid t w p none).ended w b)
      (whole (t.fixup w f b)) := by
    intro p hfin
    cases b with
    | fiber =>
      have hfix : t.fixup w f .fiber = t.setPc w .scan := by
        unfold Scheduler.fixup
        rcases hfin with h | h <;> rw [h]
      rw [hfix]
      simp only [ended, amid_leave, amid_sched]
      exact .refl _
    | cb =>
      have hfix : t.fixup w f .cb = (t.setFiber f (Fiber.reset none)).setPc w .scan := by
        unfold Scheduler.fixup
        rcases hfin with h | h <;> rw [h]
      have hreset := reset_parts pool (w := w) (f := f) .scan none hfault (.inr rfl) (fun t' q hworker hq => by
          rw [hrun t' q hworker]
          unfold fixup
          simp only [List.mem_cons, List.not_mem_nil, or_false] at hq
          rcases hq with rfl | rfl | rfl | rfl | rfl | rfl <;> simp)
      have hresettable : (t.fiber f).resettable := hfin.imp_right .inr
      rw [if_pos hresettable] at hreset
      rw [hfix]
      simp only [ended, amid_go]
      exact hreset
  -- a fiber that is held, after the last test
  have hheld : (t.fiber f).m_state ≠ .READY → ¬ (t.fiber f).Finished →
      (amid t w .hold none).hold w f b = whole (t.fixup w f b) := by
    intro hready hfin
    have hterm : (t.fiber f).m_state ≠ .TERM := fun h => hfin (.inl h)
    have hexcept : (t.fiber f).m_state ≠ .EXCEPT := fun h => hfin (.inr h)
    cases b <;> simp only [hold, amid_leave, amid_sched] <;> unfold Scheduler.fixup <;>
      split <;> simp_all
  refine amid_head hfault (.inl rfl) (hrun t _ rfl) ?_
  by_cases hready : (t.fiber f).m_state = .READY
  · have hfix : t.fixup w f b = t.setPc w (.task .requeue f b) := by
      unfold Scheduler.fixup
      rw [hready]
    simp only [fixup, amid_part, amid_state, amid_leave, amid_sched, hready, if_true]
    rw [hfix]
    exact .refl _
  simp only [fixup, amid_part, amid_state, amid_go, hready, if_false]
  refine amid_head hfault (.inl rfl) (hrun t _ rfl) ?_
  by_cases hfirst : (t.fiber f).m_state = b.firstEnd
  · have hfin : (t.fiber f).Finished := by
      cases b
      · exact .inl hfirst
      · exact .inr hfirst
    simp only [fixup, amid_part, amid_state, hfirst, if_true]
    exact hended _ hfin
  simp only [fixup, amid_part, amid_state, amid_go, hfirst, if_false]
  refine amid_head hfault (.inl rfl) (hrun t _ rfl) ?_
  by_cases hlast : (t.fiber f).m_state = b.lastEnd
  · have hfin : (t.fiber f).Finished := by
      cases b
      · exact .inr hlast
      · exact .inl hlast
    simp only [fixup, amid_part, amid_state, hlast, if_true]
    exact hended _ hfin
  have hunf : ¬ (t.fiber f).Finished := by
    cases b
    · rintro (h | h) <;> contradiction
    · rintro (h | h) <;> contradiction
  simp only [fixup, amid_part, amid_state, amid_go, hlast, if_false]
  refine amid_head hfault (.inl rfl) (hrun t _ rfl) ?_
  simp only [fixup, amid_part]
  rw [hheld hready hunf]
  exact .refl _

/-- **A worker's step.** -/
theorem runStep_parts [Fintype W] (pool : Pool W) (hfault : t.fault = none) (w : W) :
    Reaches (step pool) (whole t) (whole (t.runStep pool w)) := by
  rw [whole_eq_amid t w]
  -- where `Scheduler` makes one access, so is this one step
  have hone : (amid t w .first none).runStep pool w =
      (amid t w .first none).leave w (t.runStep pool w) →
        Reaches (step pool) (amid t w .first none) (whole (t.runStep pool w)) := by
    intro h
    rw [amid_leave] at h
    exact amid_head hfault (.inl rfl) h (.refl _)
  cases hpc : (t.worker w).pc with
  | scan =>
    have hbase : t.runStep pool w = t.scan (pool.tid w) w := by
      unfold Scheduler.runStep
      rw [hpc]
    have hlock : (amid t w .first none).runStep pool w = amid t w (.look 0) (some w) := by
      simp only [runStep, amid_sched, hpc, scan, amid_part, amid_go]
      rfl
    rw [hbase]
    exact amid_head hfault (.inl rfl) hlock
      (look_parts pool hfault hpc [] t.m_fibers rfl (by simp))
  | picked ft =>
    cases ft with
    | some ft =>
      have hbase : t.runStep pool w = t.take w ft := by
        unfold Scheduler.runStep
        rw [hpc]
      rw [hbase]
      exact take_parts pool hfault hpc
    | none => exact hone (by unfold runStep; rw [amid_sched, hpc])
  | task stage f b =>
    have hbase : t.runStep pool w = t.execute w f b stage := by
      unfold Scheduler.runStep
      rw [hpc]
    cases stage with
    | enter =>
      have hrun : ∀ p, (amid t w p none).runStep pool w = (amid t w p none).enter w f b := by
        intro p
        unfold runStep
        rw [amid_sched, hpc]
      rw [hbase]
      refine amid_head hfault (.inl rfl) (hrun _) ?_
      simp only [enter, Scheduler.execute, amid_part, amid_state, amid_leave, amid_go, amid_sched]
      by_cases hexec : (t.fiber f).m_state = .EXEC
      · rw [if_pos hexec, if_pos hexec]
        exact .refl _
      · rw [if_neg hexec, if_neg hexec]
        refine amid_head hfault (.inl rfl) (hrun _) ?_
        simp only [enter, amid_part, amid_leave, amid_sched]
        exact .refl _
    | running =>
      rw [hbase, ← whole_eq_amid]
      exact .refl _
    | fixup =>
      rw [hbase]
      exact fixup_parts pool hfault hpc
    | _ => exact hone (by unfold runStep; rw [amid_sched, hpc])
  | _ => exact hone (by unfold runStep; rw [amid_sched, hpc])

/-- Nobody waits where nobody is in the section under the mutex. -/
theorem whole_step [Fintype W] (pool : Pool W) (hfault : t.fault = none) {u : PartScheduler W}
    (h : (match a with
      | .run w => (whole t).runStep pool w
      | .user w u => (whole t).userStep w u
      | .call c => { (whole t) with sched := t.call none c }
      | .stop => { (whole t) with sched := t.stopStep pool }) = u) :
    (whole t).step pool a = u := by
  have hwaits : (whole t).waits a = false := rfl
  have hfault' : (whole t).sched.fault = none := hfault
  unfold step
  rw [if_neg (by simp [hfault', hwaits])]
  exact h

/-- **A body returns**: `m_cb` is emptied, `TERM` is written. -/
theorem finish_parts [Fintype W] (pool : Pool W) (hfault : t.fault = none) {f : FiberPtr}
    {b : Branch} (hpc : (t.worker w).pc = .task .running f b) :
    Reaches (step pool) (whole t) (whole (t.userStep w .finish)) := by
  set t' := t.setFiber f { t.fiber f with m_cb := none }
  have hempty : (whole t).userStep w .finish = amid t' w .term none := by
    rw [whole_eq_amid t w]
    simp only [userStep, finish, amid_part, amid_sched, hpc, amid_write]
    rfl
  have hterm : (amid t' w .term none).runStep pool w = whole (t.userStep w .finish) := by
    have hpc' : (t'.worker w).pc = .task .running f b := hpc
    simp only [runStep, amid_sched, hpc', amid_part, if_true, amid_leave, Scheduler.userStep, hpc]
    simp [t', Scheduler.setState, Scheduler.setFiber]
  have hfault' : t'.fault = none := hfault
  exact .head (whole_step pool (a := .user w .finish) hfault hempty)
    (amid_head hfault' (.inl rfl) hterm (.refl _))

/-- **A step of user code.** -/
theorem userStep_parts [Fintype W] (pool : Pool W) (hfault : t.fault = none) (w : W) (u : UserAct) :
    Reaches (step pool) (whole t) (whole (t.userStep w u)) := by
  have hpart : ¬ (whole t).part w = .term := by
    show ¬ Part.first = .term
    decide
  by_cases hrunning : ∃ f b, u = .finish ∧ (t.worker w).pc = .task .running f b
  · obtain ⟨f, b, rfl, hpc⟩ := hrunning
    exact finish_parts pool hfault hpc
  refine .one (.user w u) (whole_step pool hfault ?_)
  show (whole t).userStep w u = whole (t.userStep w u)
  unfold userStep
  rw [if_neg hpart]
  cases u with
  | finish =>
    show (whole t).finish w = _
    unfold finish Scheduler.userStep
    split
    · rename_i f b hpc
      exact absurd ⟨f, b, rfl, hpc⟩ hrunning
    · rename_i hnot
      split
      · rename_i f b hpc; exact absurd hpc (hnot f b)
      · rfl
  | _ => rfl

/-- **A step of `Scheduler`** is made by its parts, one after another. -/
theorem step_parts [Fintype W] (pool : Pool W) (t : Scheduler W) (a : SchedAct W) :
    Reaches (step pool) (whole t) (whole (t.step pool a)) := by
  by_cases hfault : t.fault = none
  · have hbase : t.fault.isSome = false := by rw [hfault]; rfl
    unfold Scheduler.step
    rw [if_neg (by rw [hbase]; exact Bool.false_ne_true)]
    cases a with
    | run w => exact runStep_parts pool hfault w
    | user w u => exact userStep_parts pool hfault w u
    | call c => exact .one (.call c) (whole_step pool hfault rfl)
    | stop => exact .one .stop (whole_step pool hfault rfl)
  · rw [Scheduler.step_of_fault hfault]
    exact .refl _

/-- **Every run of `Scheduler`** is a run of parts, in which nobody moves between the parts of a
step. -/
theorem run_parts [Fintype W] (pool : Pool W) (acts : List (SchedAct W)) (t : Scheduler W) :
    Reaches (step pool) (whole t) (whole (run (Scheduler.step pool) t acts)) :=
  Lib.run_parts (step_parts pool) acts t

end

end PartScheduler

end Coroutine
