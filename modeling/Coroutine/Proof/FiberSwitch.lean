import Coroutine.Lib.Run
import Coroutine.Spec.FiberSwitch
import Mathlib.Data.List.Basic

/-!
# The current fiber

The three thread-local pointers agree with the stack the processor is on.

* `Shape`: the fibers there are. Each has the stack it was made with, and a task that is not
  executing here is suspended on its own stack.
* `Where`: the place the processor is at, with the pointers and the saved contexts that go with
  it. While a task executes, the context of the fiber of `run()` is the place after the last
  `swapIn`, and that `swapIn` was of this task.
* `step_inv`: every step keeps both, and `current_fiber` reads the result off.
-/

namespace Coroutine

open Lib

namespace FiberThread

variable {s s' : FiberThread} {f g h r : FiberPtr}

/-- **The code of fiber `f` is executing**: the processor is on its stack. -/
def Executing (s : FiberThread) (f : FiberPtr) : Prop :=
  s.fault = none ∧ f < s.nfiber ∧ (s.fiber f).m_stack = s.here.stack

/-- The next step, by `a`, is a `swapOut` of `f`, a task or the idle fiber: a yield, or the end of
`MainFunc`. -/
def SwapsOut (s : FiberThread) (f : FiberPtr) (a : SwitchAct) : Prop :=
  s.Executing f ∧ s.mainFiber ≠ some f ∧
    ((∃ cur, s.here.point = .user cur) ∧
      (a = .user .yieldToReady ∨ a = .user .yieldToHold ∨ a = .user .swapOut) ∨
    (∃ cur, s.here.point = .leave cur) ∧ a = .next)

/-- **Tracking**: `GetThis` is the fiber that executes; a `swapOut` returns to the place after the
last `swapIn`, which was of this fiber; and the end of the root fiber returns to the place after
`call()`. -/
structure Tracked (s : FiberThread) : Prop where
  current : ∀ f, s.Executing f → s.GetThis.1 = f
  swapOut : ∀ f a, s.SwapsOut f a → (s.step a).fault = none ∧
    s.swapIns.getLast? = some (f, (s.step a).here) ∧
    ∃ branch, (s.step a).here.point = .swapped (s.swapIns.length - 1) branch f
  rootEnd : ∀ f cur, s.Executing f → s.m_rootFiber = some f → s.here.point = .leave cur →
    (s.step .next).fault = none ∧ (s.step .next).here = { stack := .thread, point := .callReturned }

/-! ## The fibers -/

/-- A fiber that `run()` may swap in. -/
def Task (s : FiberThread) (f : FiberPtr) : Prop :=
  f < s.nfiber ∧ s.t_threadFiber ≠ some f ∧ s.m_rootFiber ≠ some f

/-- A place on the stack of `f` at which it can be suspended. -/
def Suspended (f : FiberPtr) (p : Place) : Prop :=
  ∃ ctx, p = { stack := .fiber f, point := contextPoint f ctx }

/-- **The fibers of a thread.** -/
structure Shape (s : FiberThread) : Prop where
  thread : ∀ m, s.t_threadFiber = some m → m < s.nfiber ∧ (s.fiber m).m_state = .EXEC
  root : ∀ r, s.m_rootFiber = some r → r < s.nfiber ∧ s.mainFiber = some r ∧
    s.t_threadFiber ≠ some r
  stack : ∀ f < s.nfiber, (s.fiber f).m_stack =
    if s.t_threadFiber = some f then .thread else .fiber f
  task : ∀ f, s.Task f → (s.fiber f).m_cb ≠ some .run
  suspended : ∀ f, s.Task f → s.here.stack ≠ .fiber f → Suspended f (s.fiber f).m_ctx
  idle : ∀ c, s.idle_fiber = some c → s.Task c
  cb : ∀ c, s.cb_fiber = some c → s.Task c

namespace Shape

theorem stack_thread (hs : s.Shape) (hf : s.t_threadFiber = some f) :
    (s.fiber f).m_stack = .thread := by
  rw [hs.stack f (hs.thread f hf).1, if_pos hf]

theorem stack_task (hs : s.Shape) (hf : s.Task f) : (s.fiber f).m_stack = .fiber f := by
  rw [hs.stack f hf.1, if_neg hf.2.1]

theorem stack_root (hs : s.Shape) (hf : s.m_rootFiber = some f) :
    (s.fiber f).m_stack = .fiber f := by
  rw [hs.stack f (hs.root f hf).1, if_neg (hs.root f hf).2.2]

/-- No two fibers share a stack. -/
theorem stack_inj (hs : s.Shape) (hf : f < s.nfiber) (hg : g < s.nfiber)
    (h : (s.fiber f).m_stack = (s.fiber g).m_stack) : f = g := by
  rw [hs.stack f hf, hs.stack g hg] at h
  by_cases hfm : s.t_threadFiber = some f <;> by_cases hgm : s.t_threadFiber = some g
  · exact Option.some.inj (hfm.symm.trans hgm)
  · rw [if_pos hfm, if_neg hgm] at h; cases h
  · rw [if_neg hfm, if_pos hgm] at h; cases h
  · rw [if_neg hfm, if_neg hgm] at h; cases h; rfl

/-- The parts that the shape reads. -/
theorem congr (hs : s.Shape) (hthread : s'.t_threadFiber = s.t_threadFiber)
    (hroot : s'.m_rootFiber = s.m_rootFiber) (hmain : s'.mainFiber = s.mainFiber)
    (hfiber : s'.fiber = s.fiber) (hn : s'.nfiber = s.nfiber) (hhere : s'.here.stack = s.here.stack)
    (hidle : s'.idle_fiber = s.idle_fiber) (hcb : s'.cb_fiber = s.cb_fiber) : s'.Shape := by
  have htask : s'.Task = s.Task := by unfold Task; rw [hn, hthread, hroot]
  constructor
  · rw [hthread, hn, hfiber]; exact hs.thread
  · rw [hroot, hthread, hn, hmain]; exact hs.root
  · rw [hthread, hn, hfiber]; exact hs.stack
  · rw [htask, hfiber]; exact hs.task
  · rw [htask, hfiber, hhere]; exact hs.suspended
  · rw [htask, hidle]; exact hs.idle
  · rw [htask, hcb]; exact hs.cb

/-- Writing to a fiber, its stack kept. -/
theorem setFiber (hs : s.Shape) (f : FiberPtr) {fb : StackFiber}
    (hstack : fb.m_stack = (s.fiber f).m_stack)
    (hstate : s.t_threadFiber = some f → fb.m_state = .EXEC)
    (hcb : s.Task f → fb.m_cb ≠ some .run)
    (hctx : s.Task f → s.here.stack ≠ .fiber f → Suspended f fb.m_ctx) :
    (s.setFiber f fb).Shape := by
  constructor
  · intro m hm
    refine ⟨(hs.thread m hm).1, ?_⟩
    by_cases hmf : m = f
    · subst hmf
      simpa only [FiberThread.setFiber, Function.update_self] using hstate hm
    · simpa only [FiberThread.setFiber, Function.update_of_ne hmf] using (hs.thread m hm).2
  · exact hs.root
  · intro g hg
    have hsame : ((s.setFiber f fb).fiber g).m_stack = (s.fiber g).m_stack := by
      by_cases hgf : g = f
      · subst hgf
        simpa only [FiberThread.setFiber, Function.update_self] using hstack
      · simp only [FiberThread.setFiber, Function.update_of_ne hgf]
    exact hsame.trans (hs.stack g hg)
  · intro g hg
    by_cases hgf : g = f
    · subst hgf
      simpa only [FiberThread.setFiber, Function.update_self] using hcb hg
    · simpa only [FiberThread.setFiber, Function.update_of_ne hgf] using hs.task g hg
  · intro g hg hne
    by_cases hgf : g = f
    · subst hgf
      simpa only [FiberThread.setFiber, Function.update_self] using hctx hg hne
    · simpa only [FiberThread.setFiber, Function.update_of_ne hgf] using hs.suspended g hg hne
  · exact hs.idle
  · exact hs.cb

/-- Writing to the state of a task. -/
theorem setState (hs : s.Shape) (hf : s.Task f) (st : FiberState) : (s.setState f st).Shape :=
  hs.setFiber f rfl (fun h => absurd h hf.2.1) (hs.task f) (hs.suspended f)

/-- **Moving to another stack**: the fiber of the one left is suspended now. -/
theorem moveTo (hs : s.Shape) {p : Place}
    (hleft : ∀ f, s.Task f → s.here.stack = .fiber f → p.stack ≠ .fiber f →
      Suspended f (s.fiber f).m_ctx) : { s with here := p }.Shape := by
  refine ⟨hs.thread, hs.root, hs.stack, hs.task, ?_, hs.idle, hs.cb⟩
  intro f hf hne
  by_cases hhere : s.here.stack = .fiber f
  · exact hleft f hf hhere hne
  · exact hs.suspended f hf hhere

/-- A new fiber is a task. -/
theorem newFiber (hs : s.Shape) {cb : Option FiberCode} (hcb : cb ≠ some .run) :
    (s.newFiber cb).Shape ∧ (s.newFiber cb).Task s.nfiber ∧
      ∀ f, s.Task f → (s.newFiber cb).Task f := by
  have hthread : s.t_threadFiber ≠ some s.nfiber := fun h => absurd (hs.thread _ h).1 (Nat.lt_irrefl _)
  have hroot : s.m_rootFiber ≠ some s.nfiber := fun h => absurd (hs.root _ h).1 (Nat.lt_irrefl _)
  have hold : ∀ f < s.nfiber, (s.newFiber cb).fiber f = s.fiber f := by
    intro f hf
    simp only [FiberThread.newFiber, FiberThread.setFiber, Function.update_of_ne (Nat.ne_of_lt hf)]
  have hnew : (s.newFiber cb).fiber s.nfiber =
      { m_id := s.s_fiber_id + 1, m_stack := .fiber s.nfiber, m_cb := cb
        m_ctx := { stack := .fiber s.nfiber, point := .mainFunc } } := by
    simp only [FiberThread.newFiber, FiberThread.setFiber, Function.update_self]
  have htasks : ∀ f, s.Task f → (s.newFiber cb).Task f :=
    fun f hf => ⟨Nat.lt_succ_of_lt hf.1, hf.2⟩
  -- a task of the new state is an old one or the new fiber
  have hcases : ∀ f, (s.newFiber cb).Task f → s.Task f ∨ f = s.nfiber := by
    intro f hf
    rcases Nat.lt_succ_iff_lt_or_eq.1 hf.1 with hlt | heq
    · exact .inl ⟨hlt, hf.2⟩
    · exact .inr heq
  refine ⟨⟨?_, ?_, ?_, ?_, ?_, ?_, ?_⟩, ⟨Nat.lt_succ_self _, hthread, hroot⟩, htasks⟩
  · intro m hm
    obtain ⟨hlt, hstate⟩ := hs.thread m hm
    exact ⟨Nat.lt_succ_of_lt hlt, by rw [hold m hlt]; exact hstate⟩
  · intro r hr
    exact ⟨Nat.lt_succ_of_lt (hs.root r hr).1, (hs.root r hr).2⟩
  · intro f hf
    rcases Nat.lt_succ_iff_lt_or_eq.1 hf with hlt | rfl
    · rw [hold f hlt]
      exact hs.stack f hlt
    · rw [hnew]
      exact (if_neg hthread).symm
  · intro f hf
    rcases hcases f hf with hf | rfl
    · rw [hold f hf.1]
      exact hs.task f hf
    · rw [hnew]
      exact hcb
  · intro f hf hne
    rcases hcases f hf with hf | rfl
    · rw [hold f hf.1]
      exact hs.suspended f hf hne
    · rw [hnew]
      exact ⟨.entry, rfl⟩
  · exact fun c hc => htasks c (hs.idle c hc)
  · exact fun c hc => htasks c (hs.cb c hc)

end Shape

/-! ## The place -/

/-- The root fiber `r` has been called by `stop()`, and not ended. -/
structure Called (s : FiberThread) (r : FiberPtr) : Prop where
  root : s.m_rootFiber = some r
  caller : ∃ m, s.t_threadFiber = some m ∧
    (s.fiber m).m_ctx = { stack := .thread, point := .callReturned }
  state : (s.fiber r).m_state = .EXEC

/-- **`h` is the fiber of `run()`**: the thread's own, or the root fiber. -/
structure Home (s : FiberThread) (h : FiberPtr) : Prop where
  main : s.mainFiber = some h
  lt : h < s.nfiber
  state : (s.fiber h).m_state = .EXEC
  caller : s.m_rootFiber = none ∧ s.t_threadFiber = some h ∧ s.run_cur = none ∨
    s.Called h ∧ s.run_cur = some h

/-- The points of `run()` from the top of the loop on. -/
def RunPoint (s : FiberThread) : Point → Prop
  | .fetch => True
  | .picked ft => ∀ f, ft = some (.fiber f) → f < s.nfiber
  | .swapped _ _ f => s.Task f
  | _ => False

/-- `run()` is executing on `h`. -/
structure InRun (s : FiberThread) (h : FiberPtr) : Prop where
  home : s.Home h
  stack : s.here.stack = (s.fiber h).m_stack
  point : s.RunPoint s.here.point
  current : s.t_fiber = some h

/-- Task `f` is executing, swapped in by `run()` on `h`. -/
structure InTask (s : FiberThread) (f h : FiberPtr) : Prop where
  home : s.Home h
  task : s.Task f
  stack : s.here.stack = .fiber f
  point : (∃ ctx, s.here.point = contextPoint f ctx) ∨ s.here.point = .leave f
  current : s.t_fiber = some f
  /-- the saved context of `h` is the place after the last `swapIn` -/
  last : s.swapIns.getLast? = some (f, (s.fiber h).m_ctx)
  back : ∃ branch, (s.fiber h).m_ctx =
    { stack := (s.fiber h).m_stack, point := .swapped (s.swapIns.length - 1) branch f }

/-- **Where the processor is.** -/
inductive Where (s : FiberThread) : Prop
  /-- in `main`, before the constructor -/
  | main (hhere : s.here = { stack := .thread, point := .main }) (hcur : s.t_fiber = s.t_threadFiber)
      (hmain : s.mainFiber = none) (hroot : s.m_rootFiber = none)
  /-- in `main`, after it -/
  | outside {m r : FiberPtr} (hstack : s.here.stack = .thread)
      (hpoint : s.here.point = .constructed ∨ s.here.point = .callReturned)
      (hthread : s.t_threadFiber = some m) (hcur : s.t_fiber = some m) (hroot : s.m_rootFiber = some r)
      (hctx : (s.fiber r).m_ctx = { stack := .fiber r, point := .mainFunc } ∧
          (s.fiber r).m_cb = some .run ∨
        (s.fiber r).m_ctx = { stack := .fiber r, point := .neverReach })
  /-- at the start of `run()`, on a thread of its own -/
  | start (hhere : s.here = { stack := .thread, point := .runStart }) (hcur : s.t_fiber = none)
      (hthread : s.t_threadFiber = none) (hroot : s.m_rootFiber = none)
      (hrootThread : (s.tid : ℤ) ≠ s.m_rootThread) (hrun : s.run_cur = none)
  /-- in `MainFunc` of the root fiber -/
  | root {r : FiberPtr} (hcalled : s.Called r) (hstack : s.here.stack = .fiber r)
      (hcur : s.t_fiber = some r)
      (hpoint : s.here.point = .mainFunc ∧ (s.fiber r).m_cb = some .run ∨
        s.here.point = .runStart ∧ s.run_cur = some r ∨ s.here.point = .neverReach)
  /-- at its end -/
  | rootEnd {r : FiberPtr} (hroot : s.m_rootFiber = some r)
      (hcaller : ∃ m, s.t_threadFiber = some m ∧
        (s.fiber m).m_ctx = { stack := .thread, point := .callReturned })
      (hhere : s.here = { stack := .fiber r, point := .leave r }) (hcur : s.t_fiber = some r)
  | run {h : FiberPtr} (hrun : s.InRun h)
  | task {f h : FiberPtr} (htask : s.InTask f h)
  /-- returned from `run()`, on a thread of its own -/
  | exited {m : FiberPtr} (hhere : s.here = { stack := .thread, point := .exited })
      (hthread : s.t_threadFiber = some m) (hcur : s.t_fiber = some m) (hroot : s.m_rootFiber = none)

/-- **The invariant.** -/
def Inv (s : FiberThread) : Prop := s.fault = none → s.Shape ∧ s.Where

/-- The fiber of `run()` is no task. -/
theorem Home.ne_task (hh : s.Home h) (hf : s.Task f) : f ≠ h := by
  rintro rfl
  rcases hh.caller with ⟨-, hthread, -⟩ | ⟨hcalled, -⟩
  · exact hf.2.1 hthread
  · exact hf.2.2 hcalled.root

/-- A fiber that is not in `EXEC` is a task. -/
theorem Home.task (hs : s.Shape) (hh : s.Home h) (hf : f < s.nfiber)
    (hstate : (s.fiber f).m_state ≠ .EXEC) : s.Task f := by
  refine ⟨hf, fun hthread => hstate (hs.thread f hthread).2, fun hroot => ?_⟩
  obtain rfl : f = h := Option.some.inj ((hs.root f hroot).2.1.symm.trans hh.main)
  exact hstate hh.state

/-- **What is executing is the current fiber.** -/
theorem Where.current (hs : s.Shape) (hw : s.Where) (hf : s.Executing f) : s.t_fiber = some f := by
  obtain ⟨-, hlt, hstack⟩ := hf
  -- the fiber of the thread's own stack
  have hown : s.here.stack = .thread → s.t_threadFiber = some f := by
    intro hthread
    rw [hthread, hs.stack f hlt] at hstack
    by_contra hne
    rw [if_neg hne] at hstack
    cases hstack
  have hfiber : ∀ g, s.here.stack = .fiber g → f = g := by
    intro g hg
    rw [hg, hs.stack f hlt] at hstack
    by_cases hne : s.t_threadFiber = some f
    · rw [if_pos hne] at hstack; cases hstack
    · rw [if_neg hne] at hstack; cases hstack; rfl
  cases hw with
  | main hhere hcur => rw [hcur]; exact hown (by rw [hhere])
  | outside hthreadStack _ hthread hcur => rw [hcur, ← hthread]; exact hown hthreadStack
  | start hhere _ hthread =>
    have hnone := hown (by rw [hhere])
    rw [hthread] at hnone
    cases hnone
  | root _ hrstack hcur => rw [hcur, hfiber _ hrstack]
  | rootEnd _ _ hhere hcur => rw [hcur, hfiber _ (by rw [hhere])]
  | run hrun => rw [hrun.current, hs.stack_inj hlt hrun.home.lt (hstack.trans hrun.stack)]
  | task htask => rw [htask.current, hfiber _ htask.stack]
  | exited hhere hthread hcur => rw [hcur, ← hthread]; exact hown (by rw [hhere])

/-! ## Switches -/

theorem setFiber_self (s : FiberThread) (f : FiberPtr) (fb : StackFiber) :
    (s.setFiber f fb).fiber f = fb := Function.update_self ..

theorem setFiber_ne (s : FiberThread) {f g : FiberPtr} (fb : StackFiber) (h : g ≠ f) :
    (s.setFiber f fb).fiber g = s.fiber g := Function.update_of_ne h ..

/-- What `Called` reads. -/
theorem Called.congr (h : s.Called r) (hroot : s'.m_rootFiber = s.m_rootFiber)
    (hthread : s'.t_threadFiber = s.t_threadFiber)
    (hctx : ∀ m, s.t_threadFiber = some m → (s'.fiber m).m_ctx = (s.fiber m).m_ctx)
    (hstate : (s'.fiber r).m_state = (s.fiber r).m_state) : s'.Called r := by
  obtain ⟨m, hm, hcallerCtx⟩ := h.caller
  exact ⟨hroot.trans h.root, ⟨m, hthread.trans hm, (hctx m hm).trans hcallerCtx⟩,
    hstate.trans h.state⟩

/-- What `Home` reads: the state of `h`, and the context of the thread's own fiber unless that
is `h`. -/
theorem Home.congr (hh : s.Home h) (hmain : s'.mainFiber = s.mainFiber) (hn : s.nfiber ≤ s'.nfiber)
    (hroot : s'.m_rootFiber = s.m_rootFiber) (hthread : s'.t_threadFiber = s.t_threadFiber)
    (hrun : s'.run_cur = s.run_cur) (hstate : (s'.fiber h).m_state = (s.fiber h).m_state)
    (hctx : ∀ m, s.t_threadFiber = some m → s.m_rootFiber = some h →
      (s'.fiber m).m_ctx = (s.fiber m).m_ctx) : s'.Home h := by
  refine ⟨hmain.trans hh.main, Nat.lt_of_lt_of_le hh.lt hn, hstate.trans hh.state, ?_⟩
  rcases hh.caller with ⟨hnone, hown, hcur⟩ | ⟨hcalled, hcur⟩
  · exact .inl ⟨hroot.trans hnone, hthread.trans hown, hrun.trans hcur⟩
  · exact .inr ⟨hcalled.congr hroot hthread (fun m hm => hctx m hm hcalled.root) hstate,
      hrun.trans hcur⟩

/-- Writing to a task leaves the fiber of `run()` as it is. -/
theorem Home.setFiber (hh : s.Home h) (hf : s.Task f) (fb : StackFiber) : (s.setFiber f fb).Home h :=
  hh.congr rfl (Nat.le_refl _) rfl rfl rfl
    (by rw [setFiber_ne s fb (hh.ne_task hf).symm])
    (fun m hm _ => by rw [setFiber_ne s fb (by rintro rfl; exact hf.2.1 hm)])

/-- Saving the place of `run()`. -/
theorem saveHome (hs : s.Shape) (hh : s.Home h) (p : Place) :
    (s.setFiber h { s.fiber h with m_ctx := p }).Shape ∧
      (s.setFiber h { s.fiber h with m_ctx := p }).Home h := by
  refine ⟨hs.setFiber h rfl (fun _ => hh.state) (fun ht => absurd rfl (hh.ne_task ht))
    (fun ht => absurd rfl (hh.ne_task ht)), ?_⟩
  refine hh.congr rfl (Nat.le_refl _) rfl rfl rfl (by rw [setFiber_self]) fun m hm hroot => ?_
  have hne : m ≠ h := by rintro rfl; exact (hs.root m hroot).2.2 hm
  rw [setFiber_ne s _ hne]

/-- The place after the next `swapIn`. -/
def ret (s : FiberThread) (branch : RunBranch) (f : FiberPtr) : Place :=
  { s.here with point := .swapped s.swapIns.length branch f }

/-- The fibers at a `swapIn`: `f` is in `EXEC`, and the place of `run()` is saved. -/
def enter (s : FiberThread) (h : FiberPtr) (branch : RunBranch) (f : FiberPtr) : FiberThread :=
  (s.setState f .EXEC).setFiber h { (s.setState f .EXEC).fiber h with m_ctx := s.ret branch f }

theorem swapIn_eq {branch : RunBranch} (hmain : s.mainFiber = some h)
    (hstate : (s.fiber f).m_state ≠ .EXEC) : s.swapIn f branch =
      { s.enter h branch f with
        here := ((s.enter h branch f).fiber f).m_ctx, t_fiber := some f
        swapIns := s.swapIns ++ [(f, s.ret branch f)] } := by
  have hmain' : ((s.SetThis (some f)).setState f .EXEC).mainFiber = some h := hmain
  have hstate' : ((s.SetThis (some f)).fiber f).m_state ≠ .EXEC := hstate
  unfold swapIn
  dsimp only
  rw [if_neg hstate', hmain']
  rfl

/-- **`swapIn`**, from `run()`. -/
theorem swapIn_inv (hs : s.Shape) (hh : s.Home h) (hstack : s.here.stack = (s.fiber h).m_stack)
    (hf : f < s.nfiber) (branch : RunBranch) : (s.swapIn f branch).Inv := by
  by_cases hstate : (s.fiber f).m_state = .EXEC
  · have habort : (s.swapIn f branch).fault = some .assertion := by
      have hstate' : ((s.SetThis (some f)).fiber f).m_state = .EXEC := hstate
      unfold swapIn
      dsimp only
      rw [if_pos hstate']
      rfl
    intro hfault
    rw [habort] at hfault
    cases hfault
  have htask := hh.task hs hf hstate
  have hne := hh.ne_task htask
  have hs₁ : (s.setState f .EXEC).Shape := hs.setState htask .EXEC
  have hh₁ : (s.setState f .EXEC).Home h := hh.setFiber htask _
  have hsuspended : Suspended f (s.fiber f).m_ctx := by
    refine hs.suspended f htask fun hhere => hne ?_
    exact hs.stack_inj hf hh.lt (by rw [hs.stack_task htask, ← hhere, hstack])
  have hctxf : ((s.enter h branch f).fiber f).m_ctx = (s.fiber f).m_ctx := by
    rw [enter, setFiber_ne _ _ hne, setState, setFiber_self]
  have hfiberh : (s.enter h branch f).fiber h = { s.fiber h with m_ctx := s.ret branch f } := by
    rw [enter, setFiber_self, setState, setFiber_ne _ _ hne.symm]
  obtain ⟨hs₂, hh₂⟩ : (s.enter h branch f).Shape ∧ (s.enter h branch f).Home h := saveHome hs₁ hh₁ _
  have htask₂ : (s.enter h branch f).Task f := htask
  rw [swapIn_eq hh.main hstate, hctxf]
  intro _
  obtain ⟨ctx, hctx⟩ := hsuspended
  rw [hctx]
  have hs₃ := hs₂.moveTo (p := { stack := .fiber f, point := contextPoint f ctx }) (by
    intro g hg hhere _
    have hgtask : s.Task g := hg
    have hgh : g = h := hs.stack_inj hg.1 hh.lt (by
      rw [hs.stack_task hgtask, ← hstack]; exact hhere.symm)
    exact absurd hgh (hh₂.ne_task hg))
  generalize s.enter h branch f = t at hs₂ hh₂ hs₃ htask₂ hfiberh
  refine ⟨hs₃.congr rfl rfl rfl rfl rfl rfl rfl rfl, .task (f := f) (h := h) ?_⟩
  refine ⟨hh₂.congr rfl (Nat.le_refl _) rfl rfl rfl rfl fun _ _ _ => rfl, htask₂, rfl,
    .inl ⟨ctx, rfl⟩, rfl, ?_, branch, ?_⟩
  · show (s.swapIns ++ [(f, s.ret branch f)]).getLast? = some (f, (t.fiber h).m_ctx)
    rw [hfiberh, List.getLast?_concat]
  · show (t.fiber h).m_ctx = Place.mk (t.fiber h).m_stack
      (.swapped ((s.swapIns ++ [(f, s.ret branch f)]).length - 1) branch f)
    rw [hfiberh, List.length_append, List.length_singleton, Nat.add_sub_cancel, ← hstack]
    rfl

/-- The fibers at a `swapOut`: the place of `f` is saved. -/
def saved (s : FiberThread) (f : FiberPtr) (point : Point) : FiberThread :=
  s.setFiber f { s.fiber f with m_ctx := { s.here with point := point } }

/-- **`swapOut` of a task** goes to the place saved by the last `swapIn`. -/
theorem swapOut_eq {point : Point} (hmain : s.mainFiber = some h) (hne : f ≠ h) :
    s.swapOut f point =
      { s.saved f point with here := (s.fiber h).m_ctx, t_fiber := some h } := by
  have hctx : ((s.saved f point).fiber h).m_ctx = (s.fiber h).m_ctx := by
    rw [saved, setFiber_ne _ _ hne.symm]
  have hother : some f ≠ some h := fun heq => hne (Option.some.inj heq)
  unfold swapOut
  rw [hmain, if_pos hother, ← hctx]
  rfl

theorem swapOut_inv (hs : s.Shape) (ht : s.InTask f h) (ctx : Ctx) :
    (s.swapOut f (contextPoint f ctx)).Shape ∧ (s.swapOut f (contextPoint f ctx)).InRun h := by
  have hne := ht.home.ne_task ht.task
  have hself : ((s.saved f (contextPoint f ctx)).fiber f).m_ctx =
      { stack := .fiber f, point := contextPoint f ctx } := by
    rw [saved, setFiber_self, ← ht.stack]
  have hs₁ : (s.saved f (contextPoint f ctx)).Shape :=
    hs.setFiber f rfl (fun h => absurd h ht.task.2.1) (hs.task f)
      fun _ hleft => absurd ht.stack hleft
  have hh₁ : (s.saved f (contextPoint f ctx)).Home h := ht.home.setFiber ht.task _
  have hs₂ := hs₁.moveTo (p := (s.fiber h).m_ctx) (by
    intro g hg hhere _
    obtain rfl : f = g := Stack.fiber.inj (ht.stack.symm.trans hhere)
    exact ⟨ctx, hself⟩)
  obtain ⟨branch, hback⟩ := ht.back
  have hfiberh : (s.saved f (contextPoint f ctx)).fiber h = s.fiber h := by
    rw [saved, setFiber_ne _ _ hne.symm]
  have htask₁ : (s.saved f (contextPoint f ctx)).Task f := ht.task
  rw [swapOut_eq ht.home.main hne]
  generalize s.saved f (contextPoint f ctx) = t at hs₂ hh₁ hfiberh htask₁
  refine ⟨hs₂.congr rfl rfl rfl rfl rfl rfl rfl rfl, ?_⟩
  refine ⟨hh₁.congr rfl (Nat.le_refl _) rfl rfl rfl rfl fun _ _ _ => rfl, ?_, ?_, rfl⟩
  · show (s.fiber h).m_ctx.stack = (t.fiber h).m_stack
    rw [hfiberh, hback]
  · show RunPoint _ (s.fiber h).m_ctx.point
    rw [hback]
    exact htask₁

/-- **The end of the root fiber** goes to the place saved by `call()`. -/
theorem swapOut_root {m : FiberPtr} {point : Point} (hmain : s.mainFiber = some r)
    (hthread : s.t_threadFiber = some m) (hne : m ≠ r) : s.swapOut r point =
      { s.saved r point with here := (s.fiber m).m_ctx, t_fiber := some m } := by
  have hctx : ((s.saved r point).fiber m).m_ctx = (s.fiber m).m_ctx := by
    rw [saved, setFiber_ne _ _ hne]
  unfold swapOut
  rw [hmain, if_neg fun hother => hother rfl, hthread, ← hctx]
  rfl

theorem swapOut_root_inv {cur : FiberPtr} (hs : s.Shape) (hroot : s.m_rootFiber = some r)
    (hcaller : ∃ m, s.t_threadFiber = some m ∧
      (s.fiber m).m_ctx = { stack := .thread, point := .callReturned })
    (hhere : s.here = { stack := .fiber r, point := .leave cur }) :
    (s.swapOut r .neverReach).Shape ∧ (s.swapOut r .neverReach).Where ∧
      (s.swapOut r .neverReach).fault = s.fault ∧
      (s.swapOut r .neverReach).here = { stack := .thread, point := .callReturned } := by
  obtain ⟨m, hthread, hctx⟩ := hcaller
  obtain ⟨-, hmain, hrm⟩ := hs.root r hroot
  have hne : m ≠ r := by rintro rfl; exact hrm hthread
  have hs₁ : (s.saved r .neverReach).Shape :=
    hs.setFiber r rfl (fun h => absurd h hrm) (fun h => absurd hroot h.2.2) fun h => absurd hroot h.2.2
  have hs₂ := hs₁.moveTo (p := { stack := .thread, point := .callReturned }) (by
    intro g hg hg' _
    have hgr : Stack.fiber r = .fiber g := by rw [← hg']; exact (congrArg Place.stack hhere).symm
    obtain rfl : r = g := Stack.fiber.inj hgr
    exact absurd hroot hg.2.2)
  rw [swapOut_root hmain hthread hne, hctx]
  refine ⟨hs₂.congr rfl rfl rfl rfl rfl rfl rfl rfl,
    .outside (m := m) (r := r) rfl (.inr rfl) hthread rfl hroot (.inr ?_), rfl, rfl⟩
  show ((s.saved r .neverReach).fiber r).m_ctx = _
  rw [saved, setFiber_self, hhere]

/-- The fibers at `call()`: the root fiber is in `EXEC`, and the place in `stop()` is saved. -/
def callFrom (s : FiberThread) (m r : FiberPtr) : FiberThread :=
  (s.setState r .EXEC).setFiber m
    { (s.setState r .EXEC).fiber m with m_ctx := { s.here with point := .callReturned } }

theorem call_eq {m : FiberPtr} (hthread : s.t_threadFiber = some m) : s.call r =
    { s.callFrom m r with here := ((s.callFrom m r).fiber r).m_ctx, t_fiber := some r } := by
  have hthread' : ((s.SetThis (some r)).setState r .EXEC).t_threadFiber = some m := hthread
  unfold call
  dsimp only
  rw [hthread']
  rfl

/-- **`call`**, from `stop()`. -/
theorem call_inv {m : FiberPtr} (hs : s.Shape) (hstack : s.here.stack = .thread)
    (hthread : s.t_threadFiber = some m) (hroot : s.m_rootFiber = some r)
    (hctx : (s.fiber r).m_ctx = { stack := .fiber r, point := .mainFunc } ∧
        (s.fiber r).m_cb = some .run ∨
      (s.fiber r).m_ctx = { stack := .fiber r, point := .neverReach }) :
    (s.call r).Shape ∧ (s.call r).Where := by
  have hrm := (hs.root r hroot).2.2
  have hne : r ≠ m := by rintro rfl; exact hrm hthread
  have hnotask : ¬ s.Task r := fun h => h.2.2 hroot
  have hs₁ : (s.setState r .EXEC).Shape :=
    hs.setFiber r rfl (fun _ => rfl) (fun h => absurd h hnotask) fun h => absurd h hnotask
  have hown : (s.setState r .EXEC).fiber m = s.fiber m := setFiber_ne s _ hne.symm
  have hs₂ : (s.callFrom m r).Shape :=
    hs₁.setFiber m rfl (fun _ => by rw [hown]; exact (hs.thread m hthread).2)
      (fun h => absurd hthread h.2.1) fun h => absurd hthread h.2.1
  have hfiberr : (s.callFrom m r).fiber r = { s.fiber r with m_state := .EXEC } := by
    rw [callFrom, setFiber_ne _ _ hne, setState, setFiber_self]
  have hfiberm : ((s.callFrom m r).fiber m).m_ctx = { stack := .thread, point := .callReturned } := by
    rw [callFrom, setFiber_self, ← hstack]
  have hs₃ := hs₂.moveTo (p := (s.fiber r).m_ctx) (by
    intro g _ hg _
    have hgstack : s.here.stack = .fiber g := hg
    rw [hstack] at hgstack
    cases hgstack)
  have hcalled : (s.callFrom m r).Called r := ⟨hroot, ⟨m, hthread, hfiberm⟩, by rw [hfiberr]⟩
  have hcb : ((s.callFrom m r).fiber r).m_cb = (s.fiber r).m_cb := by rw [hfiberr]
  have hsame : ((s.callFrom m r).fiber r).m_ctx = (s.fiber r).m_ctx := by rw [hfiberr]
  rw [call_eq hthread, hsame]
  generalize s.callFrom m r = t at hs₃ hcalled hcb
  refine ⟨hs₃.congr rfl rfl rfl rfl rfl rfl rfl rfl, ?_⟩
  have hcalled' : { t with here := (s.fiber r).m_ctx, t_fiber := some r }.Called r :=
    hcalled.congr rfl rfl (fun _ _ => rfl) rfl
  rcases hctx with ⟨hctx, hrun⟩ | hctx
  · refine .root hcalled' ?_ rfl (.inl ⟨?_, hcb.trans hrun⟩)
    · exact congrArg Place.stack hctx
    · exact congrArg Place.point hctx
  · refine .root hcalled' ?_ rfl (.inr (.inr ?_))
    · exact congrArg Place.stack hctx
    · exact congrArg Place.point hctx

/-! ## Steps -/

/-- `GetThis` where there is a current fiber. -/
theorem getThis_some (hcur : s.t_fiber = some f) : s.GetThis = (f, s) := by
  unfold GetThis
  rw [hcur]

/-- `GetThis` where there is none makes the fiber of the thread's own stack. -/
theorem getThis_none (hs : s.Shape) (hcur : s.t_fiber = none) (hthread : s.t_threadFiber = none)
    (hroot : s.m_rootFiber = none) (hstack : s.here.stack = .thread) :
    s.GetThis.1 = s.nfiber ∧ s.GetThis.2.Shape ∧ s.GetThis.2.t_fiber = some s.nfiber ∧
      s.GetThis.2.t_threadFiber = some s.nfiber := by
  have hget : s.GetThis = (s.nfiber, { s.newMain with t_threadFiber := some s.nfiber }) := by
    unfold GetThis
    rw [hcur]
  have hold : ∀ f < s.nfiber, s.newMain.fiber f = s.fiber f := by
    intro f hf
    exact setFiber_ne s _ (Nat.ne_of_lt hf)
  have hnew : s.newMain.fiber s.nfiber =
      { m_state := .EXEC, m_ctx := s.here, m_stack := s.here.stack } := setFiber_self s _ _
  rw [hget]
  -- the tasks are the same ones
  have htask : ∀ f, { s.newMain with t_threadFiber := some s.nfiber }.Task f → s.Task f := by
    rintro f ⟨hlt, hne, hrne⟩
    have hfn : f ≠ s.nfiber := fun heq => hne (by rw [heq])
    exact ⟨Nat.lt_of_le_of_ne (Nat.lt_succ_iff.1 hlt) hfn, by rw [hthread]; exact Option.some_ne_none _ ∘ Eq.symm, hrne⟩
  have htask' : ∀ f, s.Task f → { s.newMain with t_threadFiber := some s.nfiber }.Task f := by
    rintro f ⟨hlt, -, hrne⟩
    refine ⟨Nat.lt_succ_of_lt hlt, fun heq => ?_, hrne⟩
    exact absurd (Option.some.inj heq) (Nat.ne_of_gt hlt)
  refine ⟨rfl, ⟨?_, ?_, ?_, ?_, ?_, ?_, ?_⟩, rfl, rfl⟩
  · intro m hm
    obtain rfl : s.nfiber = m := Option.some.inj hm
    exact ⟨Nat.lt_succ_self _, congrArg StackFiber.m_state hnew⟩
  · intro r hr
    exact absurd (hroot.symm.trans hr) (Option.some_ne_none r).symm
  · intro f hf
    rcases Nat.lt_succ_iff_lt_or_eq.1 hf with hlt | rfl
    · have hne : ¬ some s.nfiber = some f := fun heq => Nat.ne_of_gt hlt (Option.some.inj heq)
      have hfstack := hs.stack f hlt
      rw [hthread, if_neg (Option.some_ne_none f).symm] at hfstack
      exact (congrArg StackFiber.m_stack (hold f hlt)).trans (hfstack.trans (if_neg hne).symm)
    · exact (congrArg StackFiber.m_stack hnew).trans (hstack.trans (if_pos rfl).symm)
  · intro f hf
    exact fun heq => hs.task f (htask f hf) ((congrArg StackFiber.m_cb (hold f (htask f hf).1)).symm.trans heq)
  · intro f hf hne
    have hctx : Suspended f (s.fiber f).m_ctx := hs.suspended f (htask f hf) hne
    rw [← hold f (htask f hf).1] at hctx
    exact hctx
  · exact fun c hc => htask' c (hs.idle c hc)
  · exact fun c hc => htask' c (hs.cb c hc)

/-- `GetThis` writes nothing else. -/
theorem getThis_rest (s : FiberThread) : s.GetThis.2.here = s.here ∧
    s.GetThis.2.mainFiber = s.mainFiber ∧ s.GetThis.2.m_rootFiber = s.m_rootFiber ∧
    s.GetThis.2.run_cur = s.run_cur := by
  unfold GetThis
  split <;> exact ⟨rfl, rfl, rfl, rfl⟩

/-- **What others do** leaves the thread where it is: it writes to tasks only. -/
theorem Where.congr (hs : s.Shape) (hw : s.Where) (hhere : s'.here = s.here)
    (hcur : s'.t_fiber = s.t_fiber) (hthread : s'.t_threadFiber = s.t_threadFiber)
    (hmain : s'.mainFiber = s.mainFiber) (hroot : s'.m_rootFiber = s.m_rootFiber)
    (hrun : s'.run_cur = s.run_cur) (htid : s'.tid = s.tid)
    (hrootThread : s'.m_rootThread = s.m_rootThread) (hlog : s'.swapIns = s.swapIns)
    (hn : s.nfiber ≤ s'.nfiber)
    (hfiber : ∀ g < s.nfiber, ¬ s.Task g → s'.fiber g = s.fiber g) : s'.Where := by
  have htask : ∀ f, s.Task f → s'.Task f := by
    rintro f ⟨hlt, hne, hrne⟩
    exact ⟨Nat.lt_of_lt_of_le hlt hn, by rw [hthread]; exact hne, by rw [hroot]; exact hrne⟩
  have hown : ∀ m, s.t_threadFiber = some m → s'.fiber m = s.fiber m :=
    fun m hm => hfiber m (hs.thread m hm).1 fun h => h.2.1 hm
  have hrootf : ∀ r, s.m_rootFiber = some r → s'.fiber r = s.fiber r :=
    fun r hr => hfiber r (hs.root r hr).1 fun h => h.2.2 hr
  have hcalled : ∀ r, s.Called r → s'.Called r := by
    intro r hr
    refine hr.congr hroot hthread (fun m hm => by rw [hown m hm]) ?_
    rw [hrootf r hr.root]
  have hhome : ∀ h, s.Home h → s'.fiber h = s.fiber h ∧ s'.Home h := by
    intro h hh
    have hsame : s'.fiber h = s.fiber h := hfiber h hh.lt fun ht => hh.ne_task ht rfl
    exact ⟨hsame, hh.congr hmain hn hroot hthread hrun (by rw [hsame]) fun m hm _ => by rw [hown m hm]⟩
  cases hw with
  | main h₁ h₂ h₃ h₄ =>
    exact .main (hhere.trans h₁) (by rw [hcur, hthread, h₂]) (hmain.trans h₃) (hroot.trans h₄)
  | @outside m r h₁ h₂ h₃ h₄ h₅ h₆ =>
    refine .outside (m := m) (r := r) (by rw [hhere]; exact h₁) (by rw [hhere]; exact h₂)
      (hthread.trans h₃) (hcur.trans h₄) (hroot.trans h₅) ?_
    rw [hrootf r h₅]
    exact h₆
  | start h₁ h₂ h₃ h₄ h₅ h₆ =>
    exact .start (hhere.trans h₁) (hcur.trans h₂) (hthread.trans h₃) (hroot.trans h₄)
      (by rw [htid, hrootThread]; exact h₅) (hrun.trans h₆)
  | @root r h₁ h₂ h₃ h₄ =>
    refine .root (r := r) (hcalled r h₁) (by rw [hhere]; exact h₂) (hcur.trans h₃) ?_
    rw [hhere, hrootf r h₁.root, hrun]
    exact h₄
  | @rootEnd r h₁ h₂ h₃ h₄ =>
    obtain ⟨m, hm, hctx⟩ := h₂
    exact .rootEnd (r := r) (hroot.trans h₁) ⟨m, hthread.trans hm, by rw [hown m hm]; exact hctx⟩
      (hhere.trans h₃) (hcur.trans h₄)
  | @run h hr =>
    obtain ⟨hsame, hh⟩ := hhome h hr.home
    refine .run (h := h) ⟨hh, by rw [hhere, hsame]; exact hr.stack, ?_, hcur.trans hr.current⟩
    rw [hhere]
    have hpoint := hr.point
    revert hpoint
    cases s.here.point with
    | picked ft => exact fun hp f hf => Nat.lt_of_lt_of_le (hp f hf) hn
    | swapped n b f => exact fun hp => htask f hp
    | _ => exact id
  | @task f h ht =>
    obtain ⟨hsame, hh⟩ := hhome h ht.home
    refine .task (f := f) (h := h) ⟨hh, htask f ht.task, by rw [hhere]; exact ht.stack,
      by rw [hhere]; exact ht.point, hcur.trans ht.current, ?_, ?_⟩
    · rw [hlog, hsame]; exact ht.last
    · rw [hlog, hsame]; exact ht.back
  | @exited m h₁ h₂ h₃ h₄ =>
    exact .exited (m := m) (hhere.trans h₁) (hthread.trans h₂) (hcur.trans h₃) (hroot.trans h₄)

/-- Somebody creates a fiber. -/
theorem newFiber_inv (hs : s.Shape) (hw : s.Where) {cb : Option FiberCode} (hcb : cb ≠ some .run) :
    (s.newFiber cb).Shape ∧ (s.newFiber cb).Where :=
  ⟨(hs.newFiber hcb).1, hw.congr hs rfl rfl rfl rfl rfl rfl rfl rfl rfl (Nat.le_succ _)
    fun _ hg _ => setFiber_ne s _ (Nat.ne_of_lt hg)⟩

/-- Another thread has executed a fiber. -/
theorem elsewhere_inv (hs : s.Shape) (hw : s.Where) {st : FiberState} {ctx : Ctx}
    {cb : Option FiberCode} (hcb : cb ≠ some .run) (hf : f < s.nfiber) :
    (s.elsewhere f st ctx cb).Shape ∧ (s.elsewhere f st ctx cb).Where := by
  unfold elsewhere
  split
  · exact ⟨hs, hw⟩
  rename_i hnot
  obtain ⟨hstack, -, hroot⟩ := not_or.1 hnot |>.imp id not_or.1
  have htask : s.Task f := ⟨hf, fun hthread => hstack (hs.stack_thread hthread), hroot⟩
  refine ⟨hs.setFiber f rfl (fun h => absurd h htask.2.1) (fun _ => hcb) fun _ _ => ⟨ctx, ?_⟩, ?_⟩
  · rw [hs.stack_task htask]
  · refine hw.congr hs rfl rfl rfl rfl rfl rfl rfl rfl rfl (Nat.le_refl _) fun g _ hg => ?_
    have hgf : g ≠ f := by rintro rfl; exact hg htask
    exact setFiber_ne s _ hgf

/-! ## In `main` -/

/-- `GetThis` in `main`. -/
theorem main_getThis (hs : s.Shape) (hhere : s.here = { stack := .thread, point := .main })
    (hcur : s.t_fiber = s.t_threadFiber) (hroot : s.m_rootFiber = none) :
    ∃ m, s.GetThis.2.Shape ∧ s.GetThis.2.t_fiber = some m ∧ s.GetThis.2.t_threadFiber = some m := by
  cases hthread : s.t_threadFiber with
  | none =>
    rw [hthread] at hcur
    obtain ⟨-, hshape, hm⟩ := getThis_none hs hcur hthread hroot (by rw [hhere])
    exact ⟨s.nfiber, hshape, hm⟩
  | some m =>
    rw [hthread] at hcur
    rw [getThis_some hcur]
    exact ⟨m, hs, hcur, hthread⟩

/-- The root fiber is created: a fiber, but no task. -/
theorem newRoot (hs : s.Shape) (hroot : s.m_rootFiber = none) :
    { s.newFiber (some .run) with
      m_rootFiber := some s.nfiber, mainFiber := some s.nfiber }.Shape := by
  have hthread : s.t_threadFiber ≠ some s.nfiber := fun h => absurd (hs.thread _ h).1 (Nat.lt_irrefl _)
  have hold : ∀ f < s.nfiber, (s.newFiber (some .run)).fiber f = s.fiber f :=
    fun f hf => setFiber_ne s _ (Nat.ne_of_lt hf)
  have hnone : ∀ f, s.m_rootFiber ≠ some f := by
    intro f
    rw [hroot]
    exact (Option.some_ne_none f).symm
  have htask : ∀ f, { s.newFiber (some .run) with
      m_rootFiber := some s.nfiber, mainFiber := some s.nfiber }.Task f → s.Task f := by
    rintro f ⟨hlt, hne, hrne⟩
    have hfn : f ≠ s.nfiber := fun heq => hrne (by rw [heq])
    exact ⟨Nat.lt_of_le_of_ne (Nat.lt_succ_iff.1 hlt) hfn, hne, hnone f⟩
  have htask' : ∀ f, s.Task f → { s.newFiber (some .run) with
      m_rootFiber := some s.nfiber, mainFiber := some s.nfiber }.Task f := by
    rintro f ⟨hlt, hne, -⟩
    exact ⟨Nat.lt_succ_of_lt hlt, hne, fun heq => Nat.ne_of_gt hlt (Option.some.inj heq)⟩
  refine ⟨?_, ?_, ?_, ?_, ?_, ?_, ?_⟩
  · intro m hm
    obtain ⟨hlt, hstate⟩ := hs.thread m hm
    exact ⟨Nat.lt_succ_of_lt hlt, (congrArg StackFiber.m_state (hold m hlt)).trans hstate⟩
  · intro r hr
    obtain rfl : s.nfiber = r := Option.some.inj hr
    exact ⟨Nat.lt_succ_self _, rfl, hthread⟩
  · intro f hf
    rcases Nat.lt_succ_iff_lt_or_eq.1 hf with hlt | rfl
    · exact (congrArg StackFiber.m_stack (hold f hlt)).trans (hs.stack f hlt)
    · have hnew : ((s.newFiber (some .run)).fiber s.nfiber).m_stack = .fiber s.nfiber :=
        congrArg StackFiber.m_stack (setFiber_self s s.nfiber _)
      exact hnew.trans (if_neg hthread).symm
  · intro f hf heq
    exact hs.task f (htask f hf) ((congrArg StackFiber.m_cb (hold f (htask f hf).1)).symm.trans heq)
  · intro f hf hne
    have hctx : Suspended f (s.fiber f).m_ctx := hs.suspended f (htask f hf) hne
    rw [← hold f (htask f hf).1] at hctx
    exact hctx
  · exact fun c hc => htask' c (hs.idle c hc)
  · exact fun c hc => htask' c (hs.cb c hc)

/-- The constructor. -/
theorem constructor_inv (hs : s.Shape) (hhere : s.here = { stack := .thread, point := .main })
    (hcur : s.t_fiber = s.t_threadFiber) (hroot : s.m_rootFiber = none) : s.constructor.Inv := by
  obtain ⟨m, hs', hcur', hthread'⟩ := main_getThis hs hhere hcur hroot
  obtain ⟨hhere', -, hroot', -⟩ := getThis_rest s
  rw [hhere] at hhere'
  rw [hroot] at hroot'
  unfold constructor
  dsimp only
  generalize s.GetThis.2 = t at *
  split
  · intro hfault; cases hfault
  intro _
  have hshape := newRoot hs' hroot'
  have hnew : (t.newFiber (some .run)).fiber t.nfiber =
      { m_id := t.s_fiber_id + 1, m_stack := .fiber t.nfiber, m_cb := some .run
        m_ctx := { stack := .fiber t.nfiber, point := .mainFunc } } := setFiber_self t _ _
  refine ⟨hshape.congr rfl rfl rfl rfl rfl rfl rfl rfl,
    .outside (m := m) (r := t.nfiber) ?_ (.inl rfl) hthread' hcur' rfl (.inl ⟨?_, ?_⟩)⟩
  · exact congrArg Place.stack hhere'
  · exact congrArg StackFiber.m_ctx hnew
  · exact congrArg StackFiber.m_cb hnew

/-- `stop()`. -/
theorem stop_inv {m : FiberPtr} {call : Bool} (hs : s.Shape) (hw : s.Where)
    (hstack : s.here.stack = .thread) (hthread : s.t_threadFiber = some m)
    (hroot : s.m_rootFiber = some r)
    (hctx : (s.fiber r).m_ctx = { stack := .fiber r, point := .mainFunc } ∧
        (s.fiber r).m_cb = some .run ∨
      (s.fiber r).m_ctx = { stack := .fiber r, point := .neverReach }) : (s.stop call).Inv := by
  unfold stop
  rw [hroot]
  dsimp only
  split
  · exact fun _ => ⟨hs, hw⟩
  split
  · intro hfault; cases hfault
  · exact fun _ => call_inv hs hstack hthread hroot hctx

/-! ## In `run()` -/

/-- Going on in `run()`. -/
theorem InRun.goto {p : Point} (hr : s.InRun h) (hp : s.RunPoint p) : (s.goto p).InRun h :=
  ⟨hr.home.congr rfl (Nat.le_refl _) rfl rfl rfl rfl fun _ _ _ => rfl, hr.stack, hp, hr.current⟩

theorem Shape.goto (hs : s.Shape) (p : Point) : (s.goto p).Shape :=
  hs.congr rfl rfl rfl rfl rfl rfl rfl rfl

/-- From the start of `run()` to the top of its loop, once `h` is its fiber. -/
theorem enterLoop_inv (hs : s.Shape) (hh : s.Home h) (hstack : s.here.stack = (s.fiber h).m_stack)
    (hcur : s.t_fiber = some h) :
    { (s.newFiber (some .user)).goto .fetch with
      idle_fiber := some s.nfiber, cb_fiber := none }.Shape ∧
    { (s.newFiber (some .user)).goto .fetch with
      idle_fiber := some s.nfiber, cb_fiber := none }.InRun h := by
  have hcb : some FiberCode.user ≠ some .run := by decide
  obtain ⟨hs', hnew, -⟩ := hs.newFiber hcb
  have hold : ∀ f < s.nfiber, (s.newFiber (some .user)).fiber f = s.fiber f :=
    fun f hf => setFiber_ne s _ (Nat.ne_of_lt hf)
  refine ⟨⟨hs'.thread, hs'.root, hs'.stack, hs'.task, hs'.suspended, ?_, ?_⟩, ?_, ?_, trivial, hcur⟩
  · rintro c hc
    obtain rfl : s.nfiber = c := Option.some.inj hc
    exact hnew
  · intro c hc; cases hc
  · refine hh.congr rfl (Nat.le_succ _) rfl rfl rfl ?_ fun m hm _ => ?_
    · exact congrArg StackFiber.m_state (hold h hh.lt)
    · exact congrArg StackFiber.m_ctx (hold m (hs.thread m hm).1)
  · exact hstack.trans (congrArg StackFiber.m_stack (hold h hh.lt)).symm

/-- The start of `run()` on a thread of its own: `GetThis` makes the thread's fiber. -/
theorem runStart_worker (hs : s.Shape) (hhere : s.here = { stack := .thread, point := .runStart })
    (hcur : s.t_fiber = none) (hthread : s.t_threadFiber = none) (hroot : s.m_rootFiber = none)
    (hrootThread : (s.tid : ℤ) ≠ s.m_rootThread) (hrun : s.run_cur = none) :
    s.runStart.Shape ∧ s.runStart.Where := by
  obtain ⟨hn, hs', hcur', hthread'⟩ := getThis_none (s := { s with t_scheduler := true })
    (hs.congr rfl rfl rfl rfl rfl rfl rfl rfl) hcur hthread hroot (by rw [hhere])
  obtain ⟨hhere', -, hroot', hrun'⟩ := getThis_rest { s with t_scheduler := true }
  unfold runStart
  dsimp only
  rw [if_pos hrootThread, hn]
  generalize { s with t_scheduler := true }.GetThis.2 = t at *
  have hown := hs'.thread _ hthread'
  have hs'' : { t with mainFiber := some s.nfiber }.Shape := by
    refine ⟨hs'.thread, ?_, hs'.stack, hs'.task, hs'.suspended, hs'.idle, hs'.cb⟩
    intro r hr
    exact absurd (hr.symm.trans (hroot'.trans hroot)) (Option.some_ne_none r)
  have hhome : { t with mainFiber := some s.nfiber }.Home s.nfiber :=
    ⟨rfl, hown.1, hown.2, .inl ⟨hroot'.trans hroot, hthread', hrun'.trans hrun⟩⟩
  have hstack : t.here.stack = (t.fiber s.nfiber).m_stack := by
    rw [hs'.stack_thread hthread', hhere', hhere]
  obtain ⟨hshape, hin⟩ := enterLoop_inv hs'' hhome hstack hcur'
  exact ⟨hshape, .run hin⟩

/-- The start of `run()` on the root fiber. -/
theorem runStart_root (hs : s.Shape) (hcalled : s.Called r) (hstack : s.here.stack = .fiber r)
    (hcur : s.t_fiber = some r) (hrun : s.run_cur = some r) :
    s.runStart.Shape ∧ s.runStart.Where := by
  obtain ⟨hlt, hmain, -⟩ := hs.root r hcalled.root
  have hget : { s with t_scheduler := true }.GetThis = (r, { s with t_scheduler := true }) :=
    getThis_some hcur
  -- `GetThis` is the root fiber, which is what the constructor left
  have hsame : (if (s.tid : ℤ) ≠ s.m_rootThread then
      { { s with t_scheduler := true }.GetThis.2 with
        mainFiber := some { s with t_scheduler := true }.GetThis.1 }
      else { s with t_scheduler := true }) = { s with t_scheduler := true } := by
    rw [hget]
    split
    · rw [← hmain]
    · rfl
  unfold runStart
  dsimp only
  rw [hsame]
  have hs' : { s with t_scheduler := true }.Shape := hs.congr rfl rfl rfl rfl rfl rfl rfl rfl
  have hhome : { s with t_scheduler := true }.Home r :=
    ⟨hmain, hlt, hcalled.state, .inr ⟨hcalled.congr rfl rfl (fun _ _ => rfl) rfl, hrun⟩⟩
  have hstack' : s.here.stack = (s.fiber r).m_stack := hstack.trans (hs.stack_root hcalled.root).symm
  obtain ⟨hshape, hin⟩ := enterLoop_inv hs' hhome hstack' hcur
  exact ⟨hshape, .run hin⟩

/-- The section under the mutex. -/
theorem fetch_inv (hs : s.Shape) (hr : s.InRun h) (ft : Option FiberOrcb) :
    (s.fetch ft).Shape ∧ (s.fetch ft).Where := by
  unfold fetch
  split
  · rename_i f
    split
    · rename_i htake
      refine ⟨hs.goto _, .run (hr.goto ?_)⟩
      rintro g hg
      cases hg
      exact htake.1
    · exact ⟨hs, .run hr⟩
  · rename_i hcb
    exact ⟨hs.goto _, .run (hr.goto fun f hf => absurd hf (hcb f))⟩

/-- The end of `run()`: a thread of its own returns, the root fiber goes to its end. -/
theorem runEnd_inv (hs : s.Shape) (hr : s.InRun h) : s.runEnd.Shape ∧ s.runEnd.Where := by
  unfold runEnd
  rcases hr.home.caller with ⟨hroot, hthread, hrun⟩ | ⟨hcalled, hrun⟩
  · rw [hrun]
    have hstack : s.here.stack = .thread := hr.stack.trans (hs.stack_thread hthread)
    exact ⟨hs.goto _, .exited (m := h) (congrArg (Place.mk · .exited) hstack) hthread hr.current hroot⟩
  · rw [hrun]
    have hstack : s.here.stack = .fiber h := hr.stack.trans (hs.stack_root hcalled.root)
    have hrm := (hs.root h hcalled.root).2.2
    have hnotask : ¬ s.Task h := fun ht => ht.2.2 hcalled.root
    have hs' : (s.setFiber h { s.fiber h with m_cb := none, m_state := .TERM }).Shape :=
      hs.setFiber h rfl (fun hm => absurd hm hrm) (fun ht => absurd ht hnotask)
        fun ht => absurd ht hnotask
    obtain ⟨m, hm, hctx⟩ := hcalled.caller
    refine ⟨hs'.goto _, .rootEnd (r := h) hcalled.root ⟨m, hm, ?_⟩ ?_ hr.current⟩
    · have hmh : m ≠ h := by rintro rfl; exact hrm hm
      exact (congrArg StackFiber.m_ctx (setFiber_ne s _ hmh)).trans hctx
    · exact congrArg (Place.mk · (.leave h)) hstack

/-- Writing to a task that is not executing, from `run()`. -/
theorem InRun.setFiber (hr : s.InRun h) (hf : s.Task f) (fb : StackFiber) :
    (s.setFiber f fb).InRun h := by
  have hsame : (s.setFiber f fb).fiber h = s.fiber h := setFiber_ne s fb (hr.home.ne_task hf).symm
  refine ⟨hr.home.setFiber hf fb, hr.stack.trans (congrArg StackFiber.m_stack hsame).symm, hr.point,
    hr.current⟩

/-- `reset` of a task, from `run()`. -/
theorem reset_inv (hs : s.Shape) (hr : s.InRun h) (hf : s.Task f) {cb : Option FiberCode}
    (hcb : cb ≠ some .run) : (s.reset f cb).fault = none →
      (s.reset f cb).Shape ∧ (s.reset f cb).InRun h ∧ (s.reset f cb).Task f := by
  unfold reset
  dsimp only
  split
  · intro _
    refine ⟨hs.setFiber f rfl (fun hm => absurd hm hf.2.1) (fun _ => hcb) fun _ _ => ⟨.entry, ?_⟩,
      hr.setFiber hf _, hf⟩
    rw [hs.stack_task hf]
    rfl
  · intro hfault; cases hfault

/-- The branches of `run()` before `swapIn`. -/
theorem picked_inv (hs : s.Shape) (hr : s.InRun h) {ft : Option FiberOrcb}
    (hpoint : s.here.point = .picked ft) : (s.picked ft).Inv := by
  have hcb : some FiberCode.user ≠ some .run := by decide
  have hft := hr.point
  rw [hpoint] at hft
  unfold picked
  split
  · rename_i f
    split
    · exact swapIn_inv hs hr.home hr.stack (hft f rfl) _
    · exact fun _ => ⟨hs.goto _, .run (hr.goto trivial)⟩
  · split
    · rename_i c hc
      dsimp only
      split
      · rename_i hfault
        intro hnone
        rw [hnone] at hfault
        cases hfault
      · rename_i hfault
        obtain ⟨hs', hr', htask⟩ := reset_inv hs hr (hs.cb c hc) hcb (by simpa using hfault)
        exact swapIn_inv hs' hr'.home hr'.stack htask.1 _
    · obtain ⟨hs', hnew, -⟩ := hs.newFiber hcb
      have hold : (s.newFiber (some .user)).fiber h = s.fiber h :=
        setFiber_ne s _ (Nat.ne_of_lt hr.home.lt)
      have hhome : (s.newFiber (some .user)).Home h := by
        refine hr.home.congr rfl (Nat.le_succ _) rfl rfl rfl (by rw [hold]) fun m hm _ => ?_
        exact congrArg StackFiber.m_ctx (setFiber_ne s _ (Nat.ne_of_lt (hs.thread m hm).1))
      have hs'' : { s.newFiber (some .user) with cb_fiber := some s.nfiber }.Shape := by
        refine ⟨hs'.thread, hs'.root, hs'.stack, hs'.task, hs'.suspended, hs'.idle, ?_⟩
        intro c hc
        obtain rfl : s.nfiber = c := Option.some.inj hc
        exact hnew
      exact swapIn_inv (s := { s.newFiber (some .user) with cb_fiber := some s.nfiber }) hs''
        (hhome.congr rfl (Nat.le_refl _) rfl rfl rfl rfl fun _ _ _ => rfl)
        (hr.stack.trans (congrArg StackFiber.m_stack hold).symm) (Nat.lt_succ_self _) _
  · split
    · rename_i i hi
      split
      · exact fun _ => runEnd_inv hs hr
      · exact swapIn_inv hs hr.home hr.stack (hs.idle i hi).1 _
    · intro hfault; cases hfault

/-- `run()` after `swapIn`. -/
theorem swapped_inv (hs : s.Shape) (hr : s.InRun h) {n : ℕ} {branch : RunBranch}
    (hpoint : s.here.point = .swapped n branch f) : (s.swapped branch f).Inv := by
  have hf : s.Task f := by
    have hp := hr.point
    rwa [hpoint] at hp
  have hgo : (s.goto .fetch).Shape ∧ (s.goto .fetch).Where := ⟨hs.goto _, .run (hr.goto trivial)⟩
  have hhold : ((s.setState f .HOLD).goto .fetch).Shape ∧ ((s.setState f .HOLD).goto .fetch).Where := by
    have hr' : (s.setState f .HOLD).InRun h := hr.setFiber hf _
    exact ⟨(hs.setState hf _).goto _, .run (hr'.goto trivial)⟩
  -- `cb_fiber.reset()`
  have hdrop : ∀ t : FiberThread, t.Shape ∧ t.Where →
      { t with cb_fiber := none }.Shape ∧ { t with cb_fiber := none }.Where := by
    rintro t ⟨ht, hw⟩
    refine ⟨⟨ht.thread, ht.root, ht.stack, ht.task, ht.suspended, ht.idle, ?_⟩,
      hw.congr ht rfl rfl rfl rfl rfl rfl rfl rfl rfl (Nat.le_refl _) fun _ _ _ => rfl⟩
    intro c hc
    cases hc
  unfold swapped
  dsimp only
  split
  · split
    · exact fun _ => hgo
    · exact fun _ => hhold
  · split
    · exact fun _ => hdrop _ hgo
    · split
      · intro hfault
        obtain ⟨hs', hr', -⟩ := reset_inv hs hr hf (by decide) hfault
        exact ⟨hs'.goto _, .run (hr'.goto trivial)⟩
      · exact fun _ => hdrop _ hhold
  · split
    · exact fun _ => hgo
    · exact fun _ => hhold

/-! ## In a fiber -/

/-- A task goes on, or to its end. -/
theorem InTask.goto (ht : s.InTask f h) {p : Point}
    (hp : (∃ ctx, p = contextPoint f ctx) ∨ p = .leave f) : (s.goto p).InTask f h :=
  ⟨ht.home.congr rfl (Nat.le_refl _) rfl rfl rfl rfl fun _ _ _ => rfl, ht.task, ht.stack, hp, ht.current,
    ht.last, ht.back⟩

/-- A task writes to itself. -/
theorem InTask.setFiber (ht : s.InTask f h) (fb : StackFiber) : (s.setFiber f fb).InTask f h := by
  have hsame : (s.setFiber f fb).fiber h = s.fiber h :=
    setFiber_ne s fb (ht.home.ne_task ht.task).symm
  refine ⟨ht.home.setFiber ht.task fb, ht.task, ht.stack, ht.point, ht.current, ?_, ?_⟩
  · rw [hsame]; exact ht.last
  · rw [hsame]; exact ht.back

/-- A task ends, with or without an exception. -/
theorem InTask.leave (hs : s.Shape) (ht : s.InTask f h) {fb : StackFiber}
    (hstack : fb.m_stack = (s.fiber f).m_stack) (hcb : fb.m_cb ≠ some .run) :
    ((s.setFiber f fb).goto (.leave f)).Shape ∧ ((s.setFiber f fb).goto (.leave f)).Where := by
  have hs' : (s.setFiber f fb).Shape :=
    hs.setFiber f hstack (fun hm => absurd hm ht.task.2.1) (fun _ => hcb)
      fun _ hne => absurd ht.stack hne
  exact ⟨hs'.goto _, .task ((ht.setFiber fb).goto (.inr rfl))⟩

/-- `MainFunc` of a task. -/
theorem MainFunc_task (hs : s.Shape) (ht : s.InTask f h) : s.MainFunc.Shape ∧ s.MainFunc.Where := by
  unfold MainFunc
  rw [getThis_some ht.current]
  dsimp only
  split
  · rename_i hcb
    exact ht.leave hs rfl (hs.task f ht.task)
  · exact ⟨hs.goto _, .task (ht.goto (.inl ⟨.saved, rfl⟩))⟩
  · rename_i hcb
    exact absurd hcb (hs.task f ht.task)

/-- `MainFunc` of the root fiber. -/
theorem MainFunc_root (hs : s.Shape) (hcalled : s.Called r) (hstack : s.here.stack = .fiber r)
    (hcur : s.t_fiber = some r) (hcb : (s.fiber r).m_cb = some .run) :
    s.MainFunc.Shape ∧ s.MainFunc.Where := by
  unfold MainFunc
  rw [getThis_some hcur]
  dsimp only
  rw [hcb]
  exact ⟨hs.congr rfl rfl rfl rfl rfl rfl rfl rfl,
    .root (hcalled.congr rfl rfl (fun _ _ => rfl) rfl) hstack hcur (.inr (.inl ⟨rfl, rfl⟩))⟩

/-- **A step of user code**: a yield goes back to `run()`, an end goes to the end of
`MainFunc`. -/
theorem userStep_inv {cur : FiberPtr} (hs : s.Shape) (ht : s.InTask f h)
    (hpoint : s.here.point = .user cur) (u : YieldAct) :
    (s.userStep cur u).Shape ∧ (s.userStep cur u).Where := by
  have hcur : cur = f := by
    rcases ht.point with ⟨ctx, hctx⟩ | hleave
    · rw [hpoint] at hctx
      cases ctx <;> cases hctx
      rfl
    · rw [hpoint] at hleave
      cases hleave
  subst hcur
  have hyield : ∀ st, ((s.setState cur st).swapOut cur (.user cur)).Shape ∧
      ((s.setState cur st).swapOut cur (.user cur)).Where := by
    intro st
    obtain ⟨hs', hr⟩ := swapOut_inv (hs.setState ht.task st) (ht.setFiber _) .saved
    exact ⟨hs', .run hr⟩
  unfold userStep
  rw [getThis_some ht.current]
  cases u with
  | yieldToReady => exact hyield .READY
  | yieldToHold => exact hyield .HOLD
  | swapOut =>
    obtain ⟨hs', hr⟩ := swapOut_inv hs ht .saved
    exact ⟨hs', .run hr⟩
  | finish => exact ht.leave hs rfl (fun heq => by cases heq)
  | throw => exact ht.leave hs rfl (hs.task cur ht.task)

/-! ## Runs -/

/-- The code that has no choice. -/
theorem next_inv (hs : s.Shape) (hw : s.Where) : s.next.Inv := by
  unfold next
  cases hw with
  | main hhere hcur hmain hroot =>
    rw [hhere]
    exact constructor_inv hs hhere hcur hroot
  | @outside m r hstack hpoint hthread hcur hroot hctx =>
    have hw : s.Where := .outside hstack hpoint hthread hcur hroot hctx
    rcases hpoint with hpoint | hpoint
    · rw [hpoint]
      exact fun _ => ⟨hs, hw⟩
    · rw [hpoint]
      exact fun _ => ⟨hs.goto _, .outside (m := m) (r := r) hstack (.inl rfl) hthread hcur hroot hctx⟩
  | start hhere hcur hthread hroot hrootThread hrun =>
    rw [hhere]
    exact fun _ => runStart_worker hs hhere hcur hthread hroot hrootThread hrun
  | root hcalled hstack hcur hpoint =>
    rcases hpoint with ⟨hpoint, hcb⟩ | ⟨hpoint, hrun⟩ | hpoint
    · rw [hpoint]
      exact fun _ => MainFunc_root hs hcalled hstack hcur hcb
    · rw [hpoint]
      exact fun _ => runStart_root hs hcalled hstack hcur hrun
    · rw [hpoint]
      intro hfault; cases hfault
  | rootEnd hroot hcaller hhere hcur =>
    rw [hhere]
    obtain ⟨hs', hw', -, -⟩ := swapOut_root_inv hs hroot hcaller hhere
    exact fun _ => ⟨hs', hw'⟩
  | @run h hr =>
    have hw : s.Where := .run hr
    have hp := hr.point
    cases hpoint : s.here.point with
    | fetch => exact fun _ => ⟨hs, hw⟩
    | picked ft => exact picked_inv hs hr hpoint
    | swapped n branch f => exact swapped_inv hs hr hpoint
    | _ => rw [hpoint] at hp; exact hp.elim
  | @task f h ht =>
    have hw : s.Where := .task ht
    rcases ht.point with ⟨ctx, hpoint⟩ | hpoint
    · rw [hpoint]
      cases ctx with
      | entry => exact fun _ => MainFunc_task hs ht
      | saved => exact fun _ => ⟨hs, hw⟩
      | ended => intro hfault; cases hfault
    · rw [hpoint]
      obtain ⟨hs', hr⟩ := swapOut_inv hs ht .ended
      exact fun _ => ⟨hs', .run hr⟩
  | exited hhere hthread hcur hroot =>
    rw [hhere]
    exact fun _ => ⟨hs, .exited hhere hthread hcur hroot⟩

/-- What the point says where the step depends on an input. -/
def AtPoint (s : FiberThread) : Point → Prop
  | .main => s.here = { stack := .thread, point := .main } ∧ s.t_fiber = s.t_threadFiber ∧
      s.mainFiber = none ∧ s.m_rootFiber = none
  | .constructed => s.here.stack = .thread ∧ ∃ m r, s.t_threadFiber = some m ∧
      s.m_rootFiber = some r ∧
      ((s.fiber r).m_ctx = { stack := .fiber r, point := .mainFunc } ∧ (s.fiber r).m_cb = some .run ∨
        (s.fiber r).m_ctx = { stack := .fiber r, point := .neverReach })
  | .fetch => ∃ h, s.InRun h
  | .user _ => ∃ f h, s.InTask f h
  | .leave cur => (∃ h, s.InTask cur h) ∨ s.m_rootFiber = some cur ∧
      s.here = { stack := .fiber cur, point := .leave cur } ∧
      ∃ m, s.t_threadFiber = some m ∧
        (s.fiber m).m_ctx = { stack := .thread, point := .callReturned }
  | _ => True

theorem Where.at_point (hw : s.Where) : s.AtPoint s.here.point := by
  cases hw with
  | main hhere hcur hmain hroot =>
    have hpoint : s.here.point = .main := by rw [hhere]
    rw [hpoint]
    exact ⟨hhere, hcur, hmain, hroot⟩
  | outside hstack hpoint hthread hcur hroot hctx =>
    rcases hpoint with hpoint | hpoint <;> rw [hpoint]
    · exact ⟨hstack, _, _, hthread, hroot, hctx⟩
    · trivial
  | start hhere => rw [hhere]; trivial
  | root _ _ _ hpoint => rcases hpoint with ⟨hpoint, -⟩ | ⟨hpoint, -⟩ | hpoint <;> rw [hpoint] <;> trivial
  | rootEnd hroot hcaller hhere =>
    have hpoint : s.here.point = _ := congrArg Place.point hhere
    rw [hpoint]
    exact .inr ⟨hroot, hhere, hcaller⟩
  | run hr =>
    have hp := hr.point
    cases hpoint : s.here.point with
    | fetch => exact ⟨_, hr⟩
    | picked ft => trivial
    | swapped n branch f => trivial
    | _ => rw [hpoint] at hp; exact hp.elim
  | task ht =>
    rcases ht.point with ⟨ctx, hpoint⟩ | hpoint <;> rw [hpoint]
    · cases ctx with
      | saved => exact ⟨_, _, ht⟩
      | _ => trivial
    · exact .inl ⟨_, ht⟩
  | exited hhere => rw [hhere]; trivial

/-- **Every step keeps the invariant.** -/
theorem step_inv (s : FiberThread) (a : SwitchAct) (hi : s.Inv) : (s.step a).Inv := by
  unfold step
  split
  · exact hi
  rename_i hnone
  obtain ⟨hs, hw⟩ := hi (by simpa using hnone)
  have hat := hw.at_point
  have huser : ∀ cb : Option Callback, (cb.map fun _ => FiberCode.user) ≠ some .run := by
    intro cb
    cases cb <;> simp
  split
  · exact next_inv hs hw
  · -- `GetThis` in `main`
    rename_i hpoint
    rw [hpoint] at hat
    obtain ⟨hhere, hcur, hmain, hroot⟩ := hat
    obtain ⟨m, hs', hcur', hthread'⟩ := main_getThis hs hhere hcur hroot
    obtain ⟨hhere', hmain', hroot', -⟩ := getThis_rest s
    exact fun _ => ⟨hs', .main (hhere'.trans hhere) (hcur'.trans hthread'.symm) (hmain'.trans hmain)
      (hroot'.trans hroot)⟩
  · rename_i hpoint
    rw [hpoint] at hat
    obtain ⟨hstack, m, r, hthread, hroot, hctx⟩ := hat
    exact stop_inv hs hw hstack hthread hroot hctx
  · rename_i ft hpoint
    rw [hpoint] at hat
    obtain ⟨h, hr⟩ := hat
    exact fun _ => fetch_inv hs hr ft
  · rename_i u cur hpoint
    rw [hpoint] at hat
    obtain ⟨f, h, ht⟩ := hat
    exact fun _ => userStep_inv hs ht hpoint u
  · rename_i cb
    exact fun _ => newFiber_inv hs hw (huser cb)
  · rename_i f st ctx cb
    split
    · rename_i hf
      exact fun _ => elsewhere_inv hs hw (huser cb) hf
    · exact fun _ => ⟨hs, hw⟩
  · exact fun _ => ⟨hs, hw⟩

theorem init_inv (tid : ℕ+) (kind : ThreadKind) : (init tid kind).Inv := by
  have hshape : (init tid kind).Shape := by
    constructor
    · intro m hm; cases hm
    · intro r hr; cases hr
    · intro f hf; exact absurd hf (Nat.not_lt_zero f)
    · intro f hf; exact absurd hf.1 (Nat.not_lt_zero f)
    · intro f hf; exact absurd hf.1 (Nat.not_lt_zero f)
    · intro c hc; cases hc
    · intro c hc; cases hc
  refine fun _ => ⟨hshape, ?_⟩
  cases kind with
  | caller => exact .main rfl rfl rfl rfl
  | worker use_caller =>
    have htid : 0 < (tid : ℤ) := Int.natCast_pos.2 tid.2
    refine .start rfl rfl rfl rfl ?_ rfl
    show (tid : ℤ) ≠ if ThreadKind.worker use_caller = .worker true then 0 else -1
    split <;> omega

/-- A `swapOut` of a task, as the log tells it. -/
theorem swapOut_returns (ht : s.InTask f h) (point : Point) :
    (s.swapOut f point).fault = s.fault ∧
      s.swapIns.getLast? = some (f, (s.swapOut f point).here) ∧
      ∃ branch, (s.swapOut f point).here.point = .swapped (s.swapIns.length - 1) branch f := by
  obtain ⟨branch, hback⟩ := ht.back
  rw [swapOut_eq ht.home.main (ht.home.ne_task ht.task)]
  exact ⟨rfl, ht.last, branch, congrArg Place.point hback⟩

theorem step_user {u : YieldAct} {cur : FiberPtr} (hfault : s.fault = none)
    (hpoint : s.here.point = .user cur) : s.step (.user u) = s.userStep cur u := by
  unfold step
  rw [hfault, hpoint]
  rfl

theorem step_next (hfault : s.fault = none) : s.step .next = s.next := by
  unfold step
  rw [hfault]
  rfl

theorem next_leave {cur : FiberPtr} (hpoint : s.here.point = .leave cur) :
    s.next = s.swapOut cur .neverReach := by
  unfold next
  rw [hpoint]

/-- **The invariant tracks.** -/
theorem Inv.tracked (hi : s.Inv) : s.Tracked := by
  constructor
  · intro f hf
    obtain ⟨hs, hw⟩ := hi hf.1
    rw [getThis_some (hw.current hs hf)]
  · rintro f a ⟨hf, hmain, hout⟩
    obtain ⟨hs, hw⟩ := hi hf.1
    have hcur := hw.current hs hf
    have hat := hw.at_point
    rcases hout with ⟨⟨cur, hpoint⟩, hyield⟩ | ⟨⟨cur, hpoint⟩, rfl⟩
    · rw [hpoint] at hat
      obtain ⟨g, h, ht⟩ := hat
      obtain rfl : g = f := Option.some.inj (ht.current.symm.trans hcur)
      -- a yield writes to the state of `g` first
      have hstate : ∀ st, ((s.setState g st).swapOut g (.user cur)).fault = none ∧
          s.swapIns.getLast? = some (g, ((s.setState g st).swapOut g (.user cur)).here) ∧
          ∃ branch, ((s.setState g st).swapOut g (.user cur)).here.point =
            .swapped (s.swapIns.length - 1) branch g := by
        intro st
        have ht' : (s.setState g st).InTask g h := ht.setFiber _
        obtain ⟨hnone, hrest⟩ := swapOut_returns ht' (.user cur)
        exact ⟨hnone.trans hf.1, hrest⟩
      rcases hyield with rfl | rfl | rfl <;> rw [step_user hf.1 hpoint, userStep, getThis_some hcur]
      · exact hstate .READY
      · exact hstate .HOLD
      · obtain ⟨hnone, hrest⟩ := swapOut_returns ht (.user cur)
        exact ⟨hnone.trans hf.1, hrest⟩
    · rw [hpoint] at hat
      rcases hat with ⟨h, ht⟩ | ⟨hroot, hhere, -⟩
      · obtain rfl : cur = f := Option.some.inj (ht.current.symm.trans hcur)
        rw [step_next hf.1, next_leave hpoint]
        obtain ⟨hnone, hrest⟩ := swapOut_returns ht .neverReach
        exact ⟨hnone.trans hf.1, hrest⟩
      · -- the root fiber is the fiber of `run()`
        have hfr : f = cur := by
          refine hs.stack_inj hf.2.1 (hs.root cur hroot).1 ?_
          rw [hf.2.2, hs.stack_root hroot, hhere]
        rw [hfr] at hmain
        exact absurd (hs.root cur hroot).2.1 hmain
  · intro f cur hf hroot hpoint
    obtain ⟨hs, hw⟩ := hi hf.1
    have hat := hw.at_point
    rw [hpoint] at hat
    rw [step_next hf.1, next_leave hpoint]
    have hcur := hw.current hs hf
    rcases hat with ⟨h, ht⟩ | ⟨hroot', hhere, hcaller⟩
    · obtain rfl : cur = f := Option.some.inj (ht.current.symm.trans hcur)
      exact absurd hroot ht.task.2.2
    · obtain ⟨-, -, hfault, hback⟩ := swapOut_root_inv hs hroot' hcaller hhere
      exact ⟨hfault.trans hf.1, hback⟩

/-- **Current-fiber tracking.** On a worker or on the thread of the caller, in every state that a
run reaches. -/
theorem current_fiber (tid : ℕ+) (kind : ThreadKind) (as : List SwitchAct) :
    (run step (init tid kind) as).Tracked :=
  (run_inv step_inv as _ (init_inv tid kind)).tracked

/-- On the caller's thread: the constructor, `stop()`, the root fiber in `run()`, and a callback in
a fiber of its own that yields. -/
example : (run step (init ⟨1, Nat.one_pos⟩ .caller) [.next, .stop true, .next, .next,
    .take (some (.cb 0)), .next, .next, .user .yieldToReady]).here =
      { stack := .fiber 1, point := .swapped 0 .cb 3 } := by
  decide

end FiberThread

end Coroutine
