import Coroutine.Spec.Scheduler
import Mathlib.Data.Fintype.Basic

/-!
# The bodies that one worker's fibers are for

A scheduler with one worker, and for each callback that is put in a fiber, or given to
`new Fiber`, a number: its body. `Fiber::GetThis()` in a body returns the handle of the fiber it
was put in. User code names the handle by the body, so that the same user code can be run where
`run()` recycles `cb_fiber` and where it makes a new fiber for each callback.

`body`, `entry`, `hand` and `log` are not in the source. They record which body a fiber is for,
whose handle an entry of the queue or the worker has, and the steps of user code, each with the
body it is a step of.
-/

namespace Coroutine

/-- A scheduler with one worker, and the bodies. -/
structure Bodies where
  s : Scheduler Unit
  /-- the fiber each body was put in -/
  handle : ℕ → FiberPtr
  nbody : ℕ
  /-- the body put in each fiber last -/
  body : FiberPtr → ℕ
  /-- the body whose handle the entry of each number has -/
  entry : ℕ → ℕ
  /-- the body whose handle the worker has in hand -/
  hand : ℕ
  log : List (ℕ × UserAct)

namespace Bodies

/-- Where the worker stands. -/
def pc (x : Bodies) : Pc Unit := (x.s.worker ()).pc

/-- A new body is put in fiber `f`. -/
def place (x : Bodies) (f : FiberPtr) : Bodies :=
  { x with
    handle := Function.update x.handle x.nbody f, nbody := x.nbody + 1
    body := Function.update x.body f x.nbody }

/-- Only bodies that there have been have handles. -/
def known (x : Bodies) : FiberOrcb → Prop
  | .fiber b => b < x.nbody
  | .cb _ => True

instance (x : Bodies) : DecidablePred x.known
  | .fiber _ => inferInstanceAs (Decidable (_ < _))
  | .cb _ => inferInstanceAs (Decidable True)

/-- The entry for what user code names. -/
def deref (x : Bodies) : FiberOrcb → FiberOrcb
  | .fiber b => .fiber (x.handle b)
  | .cb f => .cb f

/-- Whose handle it is, if one. -/
def named : FiberOrcb → ℕ
  | .fiber b => b
  | .cb _ => 0

/-- `scheduleNoLock`. -/
def scheduleNoLock (x : Bodies) (pusher : Option Unit) (fc : Option FiberOrcb) (thread : ℤ) :
    Bodies :=
  match fc with
  | none => x
  | some task =>
    if x.known task then
      { x with
        s := x.s.scheduleNoLock (some (x.deref task)) thread pusher
        entry := Function.update x.entry x.s.pushed.length (named task) }
    else x

/-- A call by user code. -/
def call (x : Bodies) (pusher : Option Unit) : SchedCall → Bodies
  | .scheduler fc thread => x.scheduleNoLock pusher fc thread
  | .batch fcs => fcs.foldl (fun x fc => x.scheduleNoLock pusher fc (-1)) x
  | .newFiber cb => { x with s := x.s.call pusher (.newFiber cb) }.place x.s.nfiber

/-- A step of the user code that the worker executes. -/
def userStep (x : Bodies) (u : UserAct) : Bodies :=
  match x.pc with
  | .task .running f _ =>
    let x := { x with log := x.log ++ [(x.body f, u)] }
    match u with
    | .call c => x.call (some ()) c
    | u => { x with s := x.s.userStep () u }
  | _ => x

/-- `run()` with an entry in hand; where it does not recycle, without the fiber it has. -/
def take (recycle : Bool) (x : Bodies) (ft : FiberAndThread Unit) : Bodies :=
  match ft.task with
  | .fiber _ => { x with s := x.s.take () ft }
  | .cb _ =>
    let cb_fiber := if recycle then (x.s.worker ()).cb_fiber else none
    let s := (x.s.setWorker () { x.s.worker () with cb_fiber := cb_fiber }).take () ft
    { x with s := s, hand := x.nbody }.place (cb_fiber.getD x.s.nfiber)

/-- The next step of `run()`. -/
def runStep (recycle : Bool) (pool : Pool Unit) (x : Bodies) : Bodies :=
  match x.pc with
  | .scan =>
    let ft := x.s.m_fibers.find? (x.s.takes (pool.tid ()))
    { x with s := x.s.runStep pool (), hand := (ft.map fun ft => x.entry ft.serial).getD x.hand }
  | .picked (some ft) => x.take recycle ft
  | .task .requeue _ _ =>
    { x with
      s := x.s.runStep pool (), entry := Function.update x.entry x.s.pushed.length x.hand }
  | _ => { x with s := x.s.runStep pool () }

/-- One step; after a fault nothing more happens. -/
def step (recycle : Bool) (pool : Pool Unit) (x : Bodies) (a : SchedAct Unit) : Bodies :=
  if x.s.fault.isSome then x
  else
    match a with
    | .run _ => x.runStep recycle pool
    | .user _ u => x.userStep u
    | .call c => x.call none c
    | .stop => { x with s := x.s.stopStep pool }

/-- Before any callback. -/
def init (pool : Pool Unit) : Bodies :=
  { s := .init pool, handle := fun _ => 0, nbody := 0, body := fun _ => 0, entry := fun _ => 0
    hand := 0, log := [] }

/-! ## The source's step -/

/-- What user code names, where there are the bodies. -/
def actual (x : Bodies) (fc : Option FiberOrcb) : Option FiberOrcb :=
  fc.bind fun task => if x.known task then some (x.deref task) else none

/-- A call, with the handles for the names. -/
def actualCall (x : Bodies) : SchedCall → SchedCall
  | .scheduler fc thread => .scheduler (x.actual fc) thread
  | .batch fcs => .batch (fcs.map x.actual)
  | .newFiber cb => .newFiber cb

/-- A step, with the handles for the names. -/
def actualAct (x : Bodies) : SchedAct Unit → SchedAct Unit
  | .call c => .call (x.actualCall c)
  | .user w (.call c) => .user w (.call (x.actualCall c))
  | a => a

end Bodies

end Coroutine
