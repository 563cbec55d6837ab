import Coroutine.Spec.Scheduler

/-!
# The thread a task was scheduled for

The thread id of a call of `scheduler` lives in the queue entry only. `Pinned` keeps beside a
scheduler, for each fiber, the thread its task was scheduled for: that of the entry when
`run()` puts a callback into the fiber, and that of the call when the fiber itself is
scheduled for a thread. It holds until the task ends; what `run()` puts back is the same task.
-/

namespace Coroutine

/-- A scheduler, and the thread each fiber's task was scheduled for, `-1` for any. -/
structure Pinned (W : Type) where
  s : Scheduler W
  pin : FiberPtr → ℤ

/-- A call schedules an existing fiber for a thread. -/
def SchedCall.pin (nfiber : ℕ) (pin : FiberPtr → ℤ) : SchedCall → FiberPtr → ℤ
  | .scheduler (some (.fiber f)) thread =>
    if thread ≠ -1 ∧ f < nfiber then Function.update pin f thread else pin
  | _ => pin

namespace Scheduler

variable {W : Type}

/-- The threads after a step from `s` to `s'`. -/
def pinAfter (s s' : Scheduler W) (pin : FiberPtr → ℤ) : SchedAct W → FiberPtr → ℤ
  | .run w =>
    match (s.worker w).pc, (s'.worker w).pc with
    | .picked (some ft), .task .enter f .cb => Function.update pin f ft.thread
    | _, _ => pin
  | .user w u =>
    match (s.worker w).pc, u with
    | .task .running _ _, .call c => c.pin s.nfiber pin
    | .task .running f _, .finish => Function.update pin f (-1)
    | .task .running f _, .throw => Function.update pin f (-1)
    | _, _ => pin
  | .call c => c.pin s.nfiber pin
  | .stop => pin

end Scheduler

namespace Pinned

variable {W : Type} [DecidableEq W] [Fintype W]

/-- Nothing is scheduled yet. -/
def init (pool : Pool W) : Pinned W := { s := Scheduler.init pool, pin := fun _ => -1 }

/-- One step. -/
def step (pool : Pool W) (p : Pinned W) (a : SchedAct W) : Pinned W :=
  if p.s.fault.isSome then p
  else { s := p.s.step pool a, pin := p.s.pinAfter (p.s.step pool a) p.pin a }

end Pinned

end Coroutine
