import Coroutine.Spec.Scheduler
import Mathlib.Data.PNat.Notation

/-!
# Switching fibers on one thread (`fiber.cc`, `scheduler.cc`)

One thread: its thread-local variables, the fibers it meets, and the place the processor is
at, a point of the code with the stack it runs on. `swapcontext` stores the place it is
called from in one `m_ctx` and goes on at the place stored in the other; nothing else says
where a switch goes. Each of `call`, `swapIn` and `swapOut` is one step.

The thread is a worker, which starts in `run()`, or the one whose `main` constructs the
scheduler with `use_caller` and calls `stop()`. What user code and `idle()` do is any sequence
of yields up to a return or an exception. Which entry the section under the mutex takes is an
input, as are the fibers that others create and execute on their threads.

`swapIns` is not in the source: it records of each `swapIn` the fiber and the place after it.
-/

namespace Coroutine

/-- A stack: the thread's own, or the `m_stack` of a fiber. -/
inductive Stack where
  | thread
  | fiber (f : FiberPtr)
  deriving DecidableEq, Repr

/-- What `m_cb` calls: user code or `idle()`, or `Scheduler::run`. -/
inductive FiberCode where
  | user
  | run
  deriving DecidableEq, Repr

/-- The branch of `run()` that swaps a fiber in. -/
inductive RunBranch where
  | fiber
  | cb
  | idle
  deriving DecidableEq, Repr

/-- A point of the code. -/
inductive Point where
  /-- in `main`: before the constructor; after it; in `stop()`, right after `call()` -/
  | main
  | constructed
  | callReturned
  /-- in `run()`: at its start; at the top of the loop; with `ft` in hand; right after the
  `swapIn` of number `n`; returned, on a thread of its own -/
  | runStart
  | fetch
  | picked (ft : Option FiberOrcb)
  | swapped (n : ℕ) (branch : RunBranch) (f : FiberPtr)
  | exited
  /-- in `MainFunc`: at its start; in user code; before the last `swapOut`; after it -/
  | mainFunc
  | user (cur : FiberPtr)
  | leave (cur : FiberPtr)
  | neverReach
  deriving DecidableEq, Repr

/-- What a context holds. -/
structure Place where
  stack : Stack
  point : Point
  deriving DecidableEq, Repr

/-- `Fiber`. -/
structure StackFiber where
  m_id : ℕ := 0
  m_state : FiberState := .INIT
  m_ctx : Place
  m_stack : Stack
  m_cb : Option FiberCode := none
  deriving DecidableEq, Repr

/-- A thread with the scheduler it belongs to. -/
structure FiberThread where
  here : Place
  /-- `t_fiber` and `t_threadFiber` of `fiber.cc`, and the counter of fiber ids -/
  t_fiber : Option FiberPtr := none
  t_threadFiber : Option FiberPtr := none
  s_fiber_id : ℕ := 0
  /-- `t_scheduler`, and what `GetMainFiber` returns, `t_fiber` of `scheduler.cc` -/
  t_scheduler : Bool := false
  mainFiber : Option FiberPtr := none
  tid : ℕ+
  m_rootThread : ℤ := -1
  m_rootFiber : Option FiberPtr := none
  fiber : FiberPtr → StackFiber
  nfiber : ℕ := 0
  /-- locals of `run()`, and the `cur` of the `MainFunc` that called it, if one did -/
  idle_fiber : Option FiberPtr := none
  cb_fiber : Option FiberPtr := none
  run_cur : Option FiberPtr := none
  fault : Option Fault := none
  swapIns : List (FiberPtr × Place) := []

/-- A step of the code of a task, or of `idle()`. -/
inductive YieldAct where
  | yieldToReady
  | yieldToHold
  | swapOut
  | finish
  | throw
  deriving DecidableEq, Repr

/-- A step of the thread, or of others. -/
inductive SwitchAct where
  /-- the next step of code that has no choice -/
  | next
  /-- user code in `main` calls `Fiber::GetThis` -/
  | getThis
  /-- `main` calls `stop()`, and it calls the root fiber or not -/
  | stop (call : Bool)
  /-- what the section of `run()` under the mutex takes -/
  | take (ft : Option FiberOrcb)
  | user (u : YieldAct)
  /-- somebody creates a fiber, with a callback or an empty one -/
  | newFiber (cb : Option Callback)
  /-- another thread has executed a fiber, or is executing it -/
  | elsewhere (f : FiberPtr) (m_state : FiberState) (ctx : Ctx) (cb : Option Callback)

namespace FiberThread

/-- The process ends. -/
def abort (s : FiberThread) (e : Fault) : FiberThread := { s with fault := some e }

/-- The thread goes on. -/
def goto (s : FiberThread) (point : Point) : FiberThread :=
  { s with here := { s.here with point := point } }

/-- Write to a fiber. -/
def setFiber (s : FiberThread) (f : FiberPtr) (fb : StackFiber) : FiberThread :=
  { s with fiber := Function.update s.fiber f fb }

/-- Write to `m_state`. -/
def setState (s : FiberThread) (f : FiberPtr) (st : FiberState) : FiberThread :=
  s.setFiber f { s.fiber f with m_state := st }

/-! ## `Fiber` -/

/-- `Fiber::SetThis`. -/
def SetThis (s : FiberThread) (f : Option FiberPtr) : FiberThread := { s with t_fiber := f }

/-- `Fiber::Fiber()`; its name is `s.nfiber`. -/
def newMain (s : FiberThread) : FiberThread :=
  { (s.setFiber s.nfiber { m_state := .EXEC, m_ctx := s.here, m_stack := s.here.stack }).SetThis
      (some s.nfiber) with nfiber := s.nfiber + 1 }

/-- `Fiber::Fiber(cb)`; its name is `s.nfiber`. -/
def newFiber (s : FiberThread) (cb : Option FiberCode) : FiberThread :=
  { s.setFiber s.nfiber
      { m_id := s.s_fiber_id + 1, m_stack := .fiber s.nfiber, m_cb := cb
        m_ctx := { stack := .fiber s.nfiber, point := .mainFunc } } with
    nfiber := s.nfiber + 1, s_fiber_id := s.s_fiber_id + 1 }

/-- `Fiber::GetThis`. -/
def GetThis (s : FiberThread) : FiberPtr × FiberThread :=
  match s.t_fiber with
  | some f => (f, s)
  | none => (s.nfiber, { s.newMain with t_threadFiber := some s.nfiber })

/-- `Fiber::GetFiberId`. -/
def GetFiberId (s : FiberThread) : ℕ :=
  match s.t_fiber with
  | some f => (s.fiber f).m_id
  | none => 0

/-- `Fiber::reset`. -/
def reset (s : FiberThread) (f : FiberPtr) (cb : Option FiberCode) : FiberThread :=
  let fb := s.fiber f
  if fb.m_stack ≠ .thread ∧ (fb.m_state = .TERM ∨ fb.m_state = .INIT ∨ fb.m_state = .EXCEPT) then
    s.setFiber f { fb with
      m_cb := cb, m_ctx := { stack := fb.m_stack, point := .mainFunc }, m_state := .INIT }
  else s.abort .assertion

/-- `swapcontext` on the contexts of two fibers; the code after it is at `ret`. -/
def swapcontext (s : FiberThread) (out into : FiberPtr) (ret : Point) : FiberThread :=
  let s := s.setFiber out { s.fiber out with m_ctx := { s.here with point := ret } }
  { s with here := (s.fiber into).m_ctx }

/-- `Fiber::call`, in `stop()`. -/
def call (s : FiberThread) (this : FiberPtr) : FiberThread :=
  let s := (s.SetThis (some this)).setState this .EXEC
  match s.t_threadFiber with
  | some m => s.swapcontext m this .callReturned
  | none => s.abort .undefined

/-- `Fiber::swapIn`, in a branch of `run()`. -/
def swapIn (s : FiberThread) (this : FiberPtr) (branch : RunBranch) : FiberThread :=
  let s := s.SetThis (some this)
  if (s.fiber this).m_state = .EXEC then s.abort .assertion
  else
    let s := s.setState this .EXEC
    let ret : Point := .swapped s.swapIns.length branch this
    match s.mainFiber with
    | some m =>
      { s.swapcontext m this ret with
        swapIns := s.swapIns ++ [(this, { s.here with point := ret })] }
    | none => s.abort .undefined

/-- `Fiber::swapOut`; the code after it is at `ret`. -/
def swapOut (s : FiberThread) (this : FiberPtr) (ret : Point) : FiberThread :=
  if some this ≠ s.mainFiber then
    match s.mainFiber with
    | some m => (s.SetThis (some m)).swapcontext this m ret
    | none => s.abort .undefined
  else
    match s.t_threadFiber with
    | some m => (s.SetThis (some m)).swapcontext this m ret
    | none => s.abort .undefined

/-- The start of `MainFunc`; an empty `m_cb` throws. -/
def MainFunc (s : FiberThread) : FiberThread :=
  let cur := s.GetThis.1
  let s := s.GetThis.2
  match (s.fiber cur).m_cb with
  | none => (s.setState cur .EXCEPT).goto (.leave cur)
  | some .user => s.goto (.user cur)
  | some .run => { s.goto .runStart with run_cur := some cur }

/-- `MainFunc` after `m_cb()` has returned. -/
def finish (s : FiberThread) (cur : FiberPtr) : FiberThread :=
  (s.setFiber cur { s.fiber cur with m_cb := none, m_state := .TERM }).goto (.leave cur)

/-- A step of user code that `MainFunc` called with `cur`. -/
def userStep (s : FiberThread) (cur : FiberPtr) : YieldAct → FiberThread
  | .yieldToReady => (s.GetThis.2.setState s.GetThis.1 .READY).swapOut s.GetThis.1 (.user cur)
  | .yieldToHold => (s.GetThis.2.setState s.GetThis.1 .HOLD).swapOut s.GetThis.1 (.user cur)
  | .swapOut => s.GetThis.2.swapOut s.GetThis.1 (.user cur)
  | .finish => s.finish cur
  | .throw => (s.setState cur .EXCEPT).goto (.leave cur)

/-! ## `Scheduler` -/

/-- The constructor, with `use_caller`. -/
def constructor (s : FiberThread) : FiberThread :=
  let s := s.GetThis.2
  if s.t_scheduler then s.abort .assertion
  else
    let root := s.nfiber
    let s := s.newFiber (some .run)
    { s.goto .constructed with
      t_scheduler := true, m_rootFiber := some root, mainFiber := some root
      m_rootThread := s.GetFiberId }

/-- `Scheduler::stop`, as far as the call of the root fiber; whether there is one goes by the
queue. -/
def stop (s : FiberThread) (call : Bool) : FiberThread :=
  match s.m_rootFiber with
  | some root =>
    if ¬ call then s
    else if s.m_rootThread ≠ -1 ∧ ¬ s.t_scheduler then s.abort .assertion
    else s.call root
  | none => s

/-- The start of `run()`. -/
def runStart (s : FiberThread) : FiberThread :=
  let s := { s with t_scheduler := true }
  let s := if (s.tid : ℤ) ≠ s.m_rootThread then { s.GetThis.2 with mainFiber := some s.GetThis.1 } else s
  { (s.newFiber (some .user)).goto .fetch with idle_fiber := some s.nfiber, cb_fiber := none }

/-- The section of `run()` under the mutex; an entry with a fiber in `EXEC` is passed over. -/
def fetch (s : FiberThread) : Option FiberOrcb → FiberThread
  | some (.fiber f) =>
    if f < s.nfiber ∧ (s.fiber f).m_state ≠ .EXEC then s.goto (.picked (some (.fiber f))) else s
  | ft => s.goto (.picked ft)

/-- The end of `run()`. -/
def runEnd (s : FiberThread) : FiberThread :=
  match s.run_cur with
  | none => s.goto .exited
  | some cur => s.finish cur

/-- `run()` with `ft` in hand. -/
def picked (s : FiberThread) : Option FiberOrcb → FiberThread
  | some (.fiber f) =>
    if (s.fiber f).m_state ≠ .TERM ∨ (s.fiber f).m_state ≠ .EXCEPT then s.swapIn f .fiber
    else s.goto .fetch
  | some (.cb _) =>
    match s.cb_fiber with
    | some c =>
      let s := s.reset c (some .user)
      if s.fault.isSome then s else s.swapIn c .cb
    | none =>
      let c := s.nfiber
      { s.newFiber (some .user) with cb_fiber := some c }.swapIn c .cb
  | none =>
    match s.idle_fiber with
    | some i => if (s.fiber i).m_state = .TERM then s.runEnd else s.swapIn i .idle
    | none => s.abort .undefined

/-- `run()` after `swapIn`. -/
def swapped (s : FiberThread) (branch : RunBranch) (f : FiberPtr) : FiberThread :=
  let ended := (s.fiber f).m_state = .TERM ∨ (s.fiber f).m_state = .EXCEPT
  match branch with
  | .fiber =>
    if (s.fiber f).m_state = .READY ∨ ended then s.goto .fetch else (s.setState f .HOLD).goto .fetch
  | .cb =>
    if (s.fiber f).m_state = .READY then { s.goto .fetch with cb_fiber := none }
    else if ended then (s.reset f none).goto .fetch
    else { (s.setState f .HOLD).goto .fetch with cb_fiber := none }
  | .idle => if ended then s.goto .fetch else (s.setState f .HOLD).goto .fetch

/-! ## Steps -/

/-- The next step of code that has no choice. -/
def next (s : FiberThread) : FiberThread :=
  match s.here.point with
  | .main => s.constructor
  | .callReturned => s.goto .constructed
  | .runStart => s.runStart
  | .picked ft => s.picked ft
  | .swapped _ branch f => s.swapped branch f
  | .mainFunc => s.MainFunc
  | .leave cur => s.swapOut cur .neverReach
  | .neverReach => s.abort .assertion
  | .constructed | .fetch | .exited | .user _ => s

/-- Where a fiber stands that others have executed. -/
def contextPoint (f : FiberPtr) : Ctx → Point
  | .entry => .mainFunc
  | .saved => .user f
  | .ended => .neverReach

/-- Another thread has executed fiber `f`, which is not executed here; the root fiber is only
executed by `stop()`. -/
def elsewhere (s : FiberThread) (f : FiberPtr) (st : FiberState) (ctx : Ctx)
    (cb : Option FiberCode) : FiberThread :=
  if (s.fiber f).m_stack = .thread ∨ s.here.stack = .fiber f ∨ s.m_rootFiber = some f then s
  else
    s.setFiber f { s.fiber f with
      m_state := st, m_cb := cb
      m_ctx := { stack := (s.fiber f).m_stack, point := contextPoint f ctx } }

/-- One step; after a fault nothing more happens. -/
def step (s : FiberThread) (a : SwitchAct) : FiberThread :=
  if s.fault.isSome then s
  else
    match a, s.here.point with
    | .next, _ => s.next
    | .getThis, .main => s.GetThis.2
    | .stop call, .constructed => s.stop call
    | .take ft, .fetch => s.fetch ft
    | .user u, .user cur => s.userStep cur u
    | .newFiber cb, _ => s.newFiber (cb.map fun _ => .user)
    | .elsewhere f st ctx cb, _ =>
      if f < s.nfiber then s.elsewhere f st ctx (cb.map fun _ => .user) else s
    | _, _ => s

/-- The thread starts in `run()`, of a scheduler that uses its caller or not, or in `main`. -/
inductive ThreadKind where
  | worker (use_caller : Bool)
  | caller
  deriving DecidableEq, Repr

/-- A thread before its first step. -/
def init (tid : ℕ+) (kind : ThreadKind) : FiberThread :=
  { here := { stack := .thread, point := if kind = .caller then .main else .runStart }
    tid := tid, m_rootThread := if kind = .worker true then 0 else -1
    fiber := fun _ => { m_ctx := { stack := .thread, point := .exited }, m_stack := .thread } }

end FiberThread

end Coroutine
