import Coroutine.Spec.Base
import Mathlib.Data.Fintype.Defs
import Mathlib.Logic.Function.Basic

/-!
# Fibers and `Scheduler` (`fiber.h`, `fiber.cc`, `scheduler.h`, `scheduler.cc`)

Workers of type `W` execute `Scheduler::run` on one scheduler, interleaved step by step.
A step is a section under `m_mutex`, an access to one of the atomic counters, a write of a
fiber's `m_state`, or a context switch, with the reads of `m_state` before it; the fix-up after
`swapIn`, its reads and its write, is one step, and so is `reset`. `Spec.SchedulerParts` takes
these steps apart. What user code does in a fiber is any sequence of yields and calls of the scheduler,
up to a return or an exception, so its steps are inputs of the run (`UserAct`).

A context is what a switch to it would run: `MainFunc` from its start (`makecontext`), the
point after a yield, or the end of `MainFunc`. It keeps its last saved value while the fiber
runs, so that a worker that switches to a fiber too early gets the old one.

Runs begin after `start()`. `pushed`, `popped` and `started`, and the last three fields of
a queue entry, are not in the source: they record which entries were queued, taken from
the queue, and had their callback called.
-/

namespace Coroutine

/-- `Fiber::State`. -/
inductive FiberState where
  | INIT
  | HOLD
  | EXEC
  | TERM
  | READY
  | EXCEPT
  deriving DecidableEq, Repr

/-- What `m_ctx` holds. -/
inductive Ctx where
  | entry
  | saved
  | ended
  deriving DecidableEq, Repr

/-- A callback in a fiber, with the number of the queue entry it came from, if any. -/
structure Job where
  cb : Callback
  serial : Option ℕ
  deriving DecidableEq, Repr

/-- `Fiber`. -/
structure Fiber where
  m_state : FiberState := .INIT
  m_cb : Option Job := none
  m_ctx : Ctx := .entry
  deriving DecidableEq, Repr

namespace Fiber

/-- The states in which a fiber may be reset. -/
def resettable (f : Fiber) : Prop := f.m_state = .TERM ∨ f.m_state = .INIT ∨ f.m_state = .EXCEPT

instance (f : Fiber) : Decidable f.resettable := inferInstanceAs (Decidable (_ ∨ _ ∨ _))

/-- What `Fiber::reset` leaves. -/
def reset (cb : Option Job) : Fiber := { m_state := .INIT, m_cb := cb, m_ctx := .entry }

end Fiber

/-- `Scheduler::FiberAndThread`, with the number of the push, whether `stop()` was still
to be called, and the worker whose task pushed it. -/
structure FiberAndThread (W : Type) where
  task : FiberOrcb
  thread : ℤ := -1
  serial : ℕ
  early : Bool
  pusher : Option W
  deriving DecidableEq, Repr

/-- The branch of `run()` a fiber is executed in. -/
inductive Branch where
  | fiber
  | cb
  deriving DecidableEq, Repr

/-- How far a worker is with a fiber: before `swapIn`; `m_state` is `EXEC`; in user code;
in `swapOut`, the context to be saved; back in `swapIn`; after `--m_activeThreadCount`;
about to queue it again. -/
inductive Stage where
  | enter
  | switch
  | running
  | leaving (ctx : Ctx)
  | back
  | fixup
  | requeue
  deriving DecidableEq, Repr

/-- Where a worker stands in `run()`: not in it yet; at the top of the loop; after the
section under the mutex, with `ft`; executing a fiber; about to swap the idle fiber in; in
`idle()`; back from it; returned. -/
inductive Pc (W : Type) where
  | out
  | scan
  | picked (ft : Option (FiberAndThread W))
  | task (stage : Stage) (f : FiberPtr) (branch : Branch)
  | idleIn
  | idle
  | idleOut
  | exited
  deriving DecidableEq, Repr

/-- The locals of `run()`; of the idle fiber, its state. -/
structure Worker (W : Type) where
  pc : Pc W
  cb_fiber : Option FiberPtr := none
  idle : FiberState := .INIT
  deriving DecidableEq, Repr

/-- Where the thread that calls `stop()` stands: not called yet; in the early exit; about
to set `m_stopping`; about to test `stopping()` for the root fiber; in its `call()`;
joining the threads; returned. -/
inductive StopPc where
  | out
  | early
  | earlyTest
  | mark
  | test
  | call
  | join
  | done
  deriving DecidableEq, Repr

/-- `GetThreadId()` of the workers, and the one whose `run()` is the root fiber, if the
caller is used. -/
structure Pool (W : Type) where
  tid : W → ℤ
  root : Option W

/-- A `Scheduler` with its workers and the fibers. -/
structure Scheduler (W : Type) where
  m_fibers : List (FiberAndThread W)
  m_activeThreadCount : ℕ
  m_idleThreadCount : ℕ
  m_stopping : Bool
  m_autoStop : Bool
  fiber : FiberPtr → Fiber
  nfiber : ℕ
  worker : W → Worker W
  stopPc : StopPc
  fault : Option Fault
  pushed : List (FiberAndThread W)
  popped : List (FiberAndThread W)
  started : List ℕ

/-- What user code may call. -/
inductive SchedCall where
  | scheduler (fc : Option FiberOrcb) (thread : ℤ)
  | batch (fcs : List (Option FiberOrcb))
  | newFiber (cb : Option Callback)

/-- A step of the user code of a fiber. -/
inductive UserAct where
  | yieldToHold
  | yieldToReady
  | finish
  | throw
  | call (c : SchedCall)

/-- A step: of a worker in `run()`, of the task it executes, of a thread outside, or of
the thread that calls `stop()`. -/
inductive SchedAct (W : Type) where
  | run (w : W)
  | user (w : W) (u : UserAct)
  | call (c : SchedCall)
  | stop

namespace Scheduler

variable {W : Type} [DecidableEq W]

/-- A scheduler after `start()`: the threads are in `run()`, the root fiber is not. -/
def init (pool : Pool W) : Scheduler W :=
  { m_fibers := [], m_activeThreadCount := 0, m_idleThreadCount := 0
    m_stopping := false, m_autoStop := false
    fiber := fun _ => {}, nfiber := 0
    worker := fun w => { pc := if pool.root = some w then .out else .scan }
    stopPc := .out, fault := none, pushed := [], popped := [], started := [] }

/-- Change the locals of a worker. -/
def setWorker (s : Scheduler W) (w : W) (wk : Worker W) : Scheduler W :=
  { s with worker := Function.update s.worker w wk }

/-- Move a worker. -/
def setPc (s : Scheduler W) (w : W) (pc : Pc W) : Scheduler W :=
  s.setWorker w { s.worker w with pc := pc }

/-- Write to a fiber. -/
def setFiber (s : Scheduler W) (f : FiberPtr) (fb : Fiber) : Scheduler W :=
  { s with fiber := Function.update s.fiber f fb }

/-- Write to `m_state`. -/
def setState (s : Scheduler W) (f : FiberPtr) (st : FiberState) : Scheduler W :=
  s.setFiber f { s.fiber f with m_state := st }

/-- `new Fiber(cb)`. -/
def newFiber (s : Scheduler W) (cb : Option Job) : Scheduler W :=
  { s.setFiber s.nfiber (Fiber.reset cb) with nfiber := s.nfiber + 1 }

/-- The process ends. -/
def abort (s : Scheduler W) (e : Fault) : Scheduler W := { s with fault := some e }

/-! ## The queue -/

/-- `m_fibers.push_back`. -/
def push (s : Scheduler W) (task : FiberOrcb) (thread : ℤ) (pusher : Option W) : Scheduler W :=
  let ft := { task := task, thread := thread, serial := s.pushed.length
              early := s.stopPc = .out, pusher := pusher }
  { s with m_fibers := s.m_fibers ++ [ft], pushed := s.pushed ++ [ft] }

/-- Only fibers that exist have handles. -/
def exist (s : Scheduler W) : FiberOrcb → Prop
  | .fiber f => f < s.nfiber
  | .cb _ => True

instance (s : Scheduler W) : DecidablePred s.exist
  | .fiber _ => inferInstanceAs (Decidable (_ < _))
  | .cb _ => inferInstanceAs (Decidable True)

/-- `scheduleNoLock`, without its result. -/
def scheduleNoLock (s : Scheduler W) (fc : Option FiberOrcb) (thread : ℤ) (pusher : Option W) :
    Scheduler W :=
  match fc with
  | none => s
  | some task => if s.exist task then s.push task thread pusher else s

/-- A call by user code, in the task of worker `pusher` or outside. -/
def call (s : Scheduler W) (pusher : Option W) : SchedCall → Scheduler W
  | .scheduler fc thread => s.scheduleNoLock fc thread pusher
  | .batch fcs => fcs.foldl (fun s fc => s.scheduleNoLock fc (-1) pusher) s
  | .newFiber cb => s.newFiber (cb.map fun f => { cb := f, serial := none })

/-- The scan takes `ft`: it is not pinned to another thread, and not a fiber in `EXEC`. -/
def takes (s : Scheduler W) (tid : ℤ) (ft : FiberAndThread W) : Bool :=
  decide (ft.thread = -1 ∨ ft.thread = tid) &&
    match ft.task with
    | .fiber f => decide ((s.fiber f).m_state ≠ .EXEC)
    | .cb _ => true

/-- The section of `run()` under the mutex. -/
def scan (s : Scheduler W) (tid : ℤ) (w : W) : Scheduler W :=
  match s.m_fibers.find? (s.takes tid) with
  | none => s.setPc w (.picked none)
  | some ft =>
    { s.setPc w (.picked (some ft)) with
      m_fibers := s.m_fibers.eraseP (s.takes tid)
      m_activeThreadCount := s.m_activeThreadCount + 1
      popped := s.popped ++ [ft] }

/-- `Scheduler::stopping`. -/
def stopping (s : Scheduler W) : Prop :=
  s.m_autoStop ∧ s.m_stopping ∧ s.m_fibers = [] ∧ s.m_activeThreadCount = 0

instance (s : Scheduler W) : Decidable s.stopping := inferInstanceAs (Decidable (_ ∧ _ ∧ _ ∧ _))

/-! ## The branches of `run()` -/

/-- `run()` with `ft` in hand. The guard of the first branch is the source's. -/
def take (s : Scheduler W) (w : W) (ft : FiberAndThread W) : Scheduler W :=
  match ft.task with
  | .fiber f =>
    if (s.fiber f).m_state ≠ .TERM ∨ (s.fiber f).m_state ≠ .EXCEPT then
      { s.setPc w (.task .enter f .fiber) with m_activeThreadCount := s.m_activeThreadCount + 1 }
    else
      { s.setPc w .scan with m_activeThreadCount := s.m_activeThreadCount - 1 }
  | .cb f =>
    let job := some { cb := f, serial := some ft.serial }
    match (s.worker w).cb_fiber with
    | some c =>
      if (s.fiber c).resettable then
        (s.setFiber c (Fiber.reset job)).setPc w (.task .enter c .cb)
      else s.abort .assertion
    | none =>
      (s.newFiber job).setWorker w
        { s.worker w with pc := .task .enter s.nfiber .cb, cb_fiber := some s.nfiber }

/-- The switch of `swapIn`: into `MainFunc`, to the point after a yield, or past the end of
`MainFunc`. An empty callback throws. -/
def switch (s : Scheduler W) (w : W) (f : FiberPtr) (b : Branch) : Scheduler W :=
  match (s.fiber f).m_ctx with
  | .entry =>
    match (s.fiber f).m_cb with
    | some job =>
      { s.setPc w (.task .running f b) with started := s.started ++ job.serial.toList }
    | none => (s.setState f .EXCEPT).setPc w (.task (.leaving .ended) f b)
  | .saved => s.setPc w (.task .running f b)
  | .ended => s.abort .assertion

/-- After `swapIn`: by the fiber's state it is to be queued again, has ended, or is held. The
source reads the state up to three times and takes no lock; `PartScheduler.fixup` is in parts. -/
def fixup (s : Scheduler W) (w : W) (f : FiberPtr) (b : Branch) : Scheduler W :=
  match (s.fiber f).m_state, b with
  | .READY, _ => s.setPc w (.task .requeue f b)
  | .TERM, .fiber | .EXCEPT, .fiber => s.setPc w .scan
  | .TERM, .cb | .EXCEPT, .cb => (s.setFiber f (Fiber.reset none)).setPc w .scan
  | _, .fiber => (s.setState f .HOLD).setPc w .scan
  | _, .cb => (s.setState f .HOLD).setWorker w { s.worker w with pc := .scan, cb_fiber := none }

/-- `scheduler(ft.fiber)`, and for a callback's fiber `cb_fiber.reset()`. -/
def requeue (s : Scheduler W) (w : W) (f : FiberPtr) (b : Branch) : Scheduler W :=
  match b with
  | .fiber => (s.push (.fiber f) (-1) none).setPc w .scan
  | .cb => (s.push (.fiber f) (-1) none).setWorker w { s.worker w with pc := .scan, cb_fiber := none }

/-- The next step of worker `w` with fiber `f`. -/
def execute (s : Scheduler W) (w : W) (f : FiberPtr) (b : Branch) : Stage → Scheduler W
  | .enter =>
    if (s.fiber f).m_state = .EXEC then s.abort .assertion
    else (s.setState f .EXEC).setPc w (.task .switch f b)
  | .switch => s.switch w f b
  | .running => s
  | .leaving ctx => (s.setFiber f { s.fiber f with m_ctx := ctx }).setPc w (.task .back f b)
  | .back =>
    { s.setPc w (.task .fixup f b) with m_activeThreadCount := s.m_activeThreadCount - 1 }
  | .fixup => s.fixup w f b
  | .requeue => s.requeue w f b

/-- The next step of worker `w` in `run()`. -/
def runStep (pool : Pool W) (s : Scheduler W) (w : W) : Scheduler W :=
  match (s.worker w).pc with
  | .out => if s.stopPc = .call ∧ pool.root = some w then s.setPc w .scan else s
  | .exited => s
  | .scan => s.scan (pool.tid w) w
  | .picked (some ft) => s.take w ft
  | .picked none =>
    if (s.worker w).idle = .TERM then s.setPc w .exited
    else { s.setPc w .idleIn with m_idleThreadCount := s.m_idleThreadCount + 1 }
  | .task stage f b => s.execute w f b stage
  | .idleIn => s.setWorker w { s.worker w with pc := .idle, idle := .EXEC }
  | .idle =>
    -- `idle()` returns when `stopping()`, or else yields
    s.setWorker w { s.worker w with pc := .idleOut, idle := if s.stopping then .TERM else .HOLD }
  | .idleOut => { s.setPc w .scan with m_idleThreadCount := s.m_idleThreadCount - 1 }

/-! ## The other parties -/

/-- A step of the user code that worker `w` executes. -/
def userStep (s : Scheduler W) (w : W) (u : UserAct) : Scheduler W :=
  match (s.worker w).pc with
  | .task .running f b =>
    match u with
    | .yieldToHold => (s.setState f .HOLD).setPc w (.task (.leaving .saved) f b)
    | .yieldToReady => (s.setState f .READY).setPc w (.task (.leaving .saved) f b)
    | .finish =>
      (s.setFiber f { s.fiber f with m_state := .TERM, m_cb := none }).setPc w
        (.task (.leaving .ended) f b)
    | .throw => (s.setState f .EXCEPT).setPc w (.task (.leaving .ended) f b)
    | .call c => s.call (some w) c
  | _ => s

variable [Fintype W]

/-- The next step of the thread in `stop()`. -/
def stopStep (pool : Pool W) (s : Scheduler W) : Scheduler W :=
  match s.stopPc with
  | .out =>
    { s with
      m_autoStop := true
      stopPc := if pool.root.isSome ∧ ∀ w, pool.root = some w then .early else .mark }
  | .early => { s with m_stopping := true, stopPc := .earlyTest }
  | .earlyTest => { s with stopPc := if s.stopping then .done else .mark }
  | .mark => { s with m_stopping := true, stopPc := if pool.root.isSome then .test else .join }
  | .test => { s with stopPc := if s.stopping then .join else .call }
  | .call =>
    if ∀ w, pool.root = some w → (s.worker w).pc = .exited then { s with stopPc := .join } else s
  | .join =>
    if ∀ w, pool.root = some w ∨ (s.worker w).pc = .exited then { s with stopPc := .done } else s
  | .done => s

/-- One step; after a fault nothing more happens. -/
def step (pool : Pool W) (s : Scheduler W) (a : SchedAct W) : Scheduler W :=
  if s.fault.isSome then s
  else
    match a with
    | .run w => s.runStep pool w
    | .user w u => s.userStep w u
    | .call c => s.call none c
    | .stop => s.stopStep pool

end Scheduler

end Coroutine
