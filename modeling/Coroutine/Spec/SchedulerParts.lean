import Coroutine.Spec.Scheduler

/-!
# `run()`, one access to a fiber at a time (`fiber.cc`, `scheduler.cc`)

`Spec.Scheduler` makes one step of what `run()` does at one place. Here a step reads or writes one
fiber once: the scan reads the state of one entry after another, the guard of the first branch reads
`m_state` twice, `swapIn` and `reset` read it in their assertions before they write it, the fix-up
reads it up to three times before it writes `HOLD`, and `MainFunc` empties `m_cb` before it writes
`TERM`. Between two of these any other party may move; only a section under `m_mutex` has no other
section in it.
-/

namespace Coroutine

/-- Of the states in which a fiber has ended, the one the branch tests first. -/
def Branch.firstEnd : Branch → FiberState
  | .fiber => .TERM
  | .cb => .EXCEPT

/-- The one it tests last. -/
def Branch.lastEnd : Branch → FiberState
  | .fiber => .EXCEPT
  | .cb => .TERM

/-- What a worker does next in what is one step of `Spec.Scheduler`: the first, second or third read
of `m_state` there; the write of `HOLD`; in `reset`, the three reads of the assertion and the writes
of `m_cb`, `m_ctx` and `m_state`; in the section under the mutex, to look at entry `n` or to take it;
at the end of `MainFunc`, the write of `TERM`. -/
inductive Part where
  | first
  | second
  | third
  | hold
  | resetTerm
  | resetInit
  | resetExcept
  | resetCb
  | resetCtx
  | resetState
  | look (n : ℕ)
  | erase (n : ℕ)
  | term
  deriving DecidableEq, Repr

/-- A scheduler with the part each worker is at and the worker that has `m_mutex`. -/
structure PartScheduler (W : Type) where
  sched : Scheduler W
  part : W → Part
  m_mutex : Option W

namespace PartScheduler

variable {W : Type} [DecidableEq W]

/-- A scheduler of whose steps none is under way. -/
def whole (sched : Scheduler W) : PartScheduler W :=
  { sched := sched, part := fun _ => .first, m_mutex := none }

/-- The next part of what worker `w` does. -/
def go (s : PartScheduler W) (w : W) (p : Part) : PartScheduler W :=
  { s with part := Function.update s.part w p }

/-- The last part, which leaves `sched`. -/
def leave (s : PartScheduler W) (w : W) (sched : Scheduler W) : PartScheduler W :=
  { s with sched := sched, part := Function.update s.part w .first }

/-- `m_state` of a fiber. -/
def state (s : PartScheduler W) (f : FiberPtr) : FiberState :=
  (s.sched.fiber f).m_state

/-- Write to a fiber, and go on to another part. -/
def write (s : PartScheduler W) (w : W) (f : FiberPtr) (fb : Fiber) (p : Part) : PartScheduler W :=
  { (s.go w p) with sched := s.sched.setFiber f fb }

/-! ## The section under the mutex -/

/-- The worker has left the section. -/
def unlock (s : PartScheduler W) : PartScheduler W := { s with m_mutex := none }

/-- The section of `run()` under the mutex, one entry after another. -/
def scan (s : PartScheduler W) (tid : ℤ) (w : W) : PartScheduler W :=
  match s.part w with
  | .look n =>
    match s.sched.m_fibers[n]? with
    | none => (s.leave w (s.sched.setPc w (.picked none))).unlock
    | some ft => s.go w (if s.sched.takes tid ft then .erase n else .look (n + 1))
  | .erase n =>
    match s.sched.m_fibers[n]? with
    | none => s
    | some ft =>
      (s.leave w
        { s.sched.setPc w (.picked (some ft)) with
          m_fibers := s.sched.m_fibers.eraseIdx n
          m_activeThreadCount := s.sched.m_activeThreadCount + 1
          popped := s.sched.popped ++ [ft] }).unlock
  | _ => { s.go w (.look 0) with m_mutex := some w }

/-! ## The branches of `run()` -/

/-- `Fiber::reset(cb)` on fiber `f`, after which worker `w` goes to `pc`. -/
def reset (s : PartScheduler W) (w : W) (f : FiberPtr) (cb : Option Job) (pc : Pc W) :
    PartScheduler W :=
  match s.part w with
  | .resetInit => s.go w (if s.state f = .INIT then .resetCb else .resetExcept)
  | .resetExcept =>
    if s.state f = .EXCEPT then s.go w .resetCb else s.leave w (s.sched.abort .assertion)
  | .resetCb => s.write w f { s.sched.fiber f with m_cb := cb } .resetCtx
  | .resetCtx => s.write w f { s.sched.fiber f with m_ctx := .entry } .resetState
  | .resetState => s.leave w ((s.sched.setState f .INIT).setPc w pc)
  | _ => s.go w (if s.state f = .TERM then .resetCb else .resetInit)

/-- `run()` with `ft` in hand. -/
def take (s : PartScheduler W) (w : W) (ft : FiberAndThread W) : PartScheduler W :=
  let swapIn := fun f : FiberPtr => s.leave w
    { s.sched.setPc w (.task .enter f .fiber) with
      m_activeThreadCount := s.sched.m_activeThreadCount + 1 }
  match ft.task with
  | .fiber f =>
    match s.part w with
    | .second =>
      if s.state f ≠ .EXCEPT then swapIn f
      else
        s.leave w { s.sched.setPc w .scan with
          m_activeThreadCount := s.sched.m_activeThreadCount - 1 }
    | _ => if s.state f ≠ .TERM then swapIn f else s.go w .second
  | .cb cb =>
    match (s.sched.worker w).cb_fiber with
    | some c => s.reset w c (some { cb := cb, serial := some ft.serial }) (.task .enter c .cb)
    | none => s.leave w (s.sched.take w ft)

/-- `swapIn` up to the switch. -/
def enter (s : PartScheduler W) (w : W) (f : FiberPtr) (b : Branch) : PartScheduler W :=
  match s.part w with
  | .second => s.leave w ((s.sched.setState f .EXEC).setPc w (.task .switch f b))
  | _ => if s.state f = .EXEC then s.leave w (s.sched.abort .assertion) else s.go w .second

/-- The fix-up of a fiber that has ended: `ft.reset()`, or `cb_fiber->reset(nullptr)`. -/
def ended (s : PartScheduler W) (w : W) : Branch → PartScheduler W
  | .fiber => s.leave w (s.sched.setPc w .scan)
  | .cb => s.go w .resetTerm

/-- The fix-up of a fiber that has neither ended nor is `READY`. -/
def hold (s : PartScheduler W) (w : W) (f : FiberPtr) : Branch → PartScheduler W
  | .fiber => s.leave w ((s.sched.setState f .HOLD).setPc w .scan)
  | .cb =>
    s.leave w ((s.sched.setState f .HOLD).setWorker w
      { s.sched.worker w with pc := .scan, cb_fiber := none })

/-- After `swapIn`: by the fiber's state it is to be queued again, has ended, or is held. -/
def fixup (s : PartScheduler W) (w : W) (f : FiberPtr) (b : Branch) : PartScheduler W :=
  match s.part w with
  | .first =>
    if s.state f = .READY then s.leave w (s.sched.setPc w (.task .requeue f b)) else s.go w .second
  | .second => if s.state f = b.firstEnd then s.ended w b else s.go w .third
  | .third => if s.state f = b.lastEnd then s.ended w b else s.go w .hold
  | .hold => s.hold w f b
  | _ => s.reset w f none .scan

/-- The next step of worker `w` in `run()`. -/
def runStep (pool : Pool W) (s : PartScheduler W) (w : W) : PartScheduler W :=
  match (s.sched.worker w).pc with
  | .scan => s.scan (pool.tid w) w
  | .picked (some ft) => s.take w ft
  | .task .enter f b => s.enter w f b
  | .task .running f b =>
    if s.part w = .term then
      s.leave w ((s.sched.setState f .TERM).setPc w (.task (.leaving .ended) f b))
    else s
  | .task .fixup f b => s.fixup w f b
  | _ => s.leave w (s.sched.runStep pool w)

/-! ## The other parties -/

/-- The body that worker `w` executes returns: `MainFunc` empties `m_cb`, and has `TERM` to write. -/
def finish (s : PartScheduler W) (w : W) : PartScheduler W :=
  match (s.sched.worker w).pc with
  | .task .running f _ => s.write w f { s.sched.fiber f with m_cb := none } .term
  | _ => s

/-- A step of the user code that worker `w` executes, unless it has returned. -/
def userStep (s : PartScheduler W) (w : W) (u : UserAct) : PartScheduler W :=
  if s.part w = .term then s
  else
    match u with
    | .finish => s.finish w
    | u => { s with sched := s.sched.userStep w u }

/-- The step is a section under `m_mutex`, or the first part of one. -/
def locks (s : PartScheduler W) : SchedAct W → Bool
  | .run w =>
    match (s.sched.worker w).pc with
    | .scan | .idle | .task .requeue _ _ => true
    | _ => false
  | .user _ (.call (.scheduler _ _)) | .user _ (.call (.batch _)) => true
  | .call (.scheduler _ _) | .call (.batch _) => true
  | .stop => s.sched.stopPc = .earlyTest ∨ s.sched.stopPc = .test
  | _ => false

/-- The step has to wait for `m_mutex`. -/
def waits (s : PartScheduler W) (a : SchedAct W) : Bool :=
  match s.m_mutex with
  | none => false
  | some v => s.locks a && (match a with | .run w => decide (w ≠ v) | _ => true)

/-- One step; after a fault nothing more happens. -/
def step [Fintype W] (pool : Pool W) (s : PartScheduler W) (a : SchedAct W) : PartScheduler W :=
  if s.sched.fault.isSome ∨ s.waits a then s
  else
    match a with
    | .run w => s.runStep pool w
    | .user w u => s.userStep w u
    | .call c => { s with sched := s.sched.call none c }
    | .stop => { s with sched := s.sched.stopStep pool }

end PartScheduler

end Coroutine
