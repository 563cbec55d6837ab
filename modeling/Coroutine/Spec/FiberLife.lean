import Coroutine.Lib.Shared
import Coroutine.Spec.Scheduler

/-!
# The lifetime of fibers (`fiber.h`, `fiber.cc`, `scheduler.h`, `scheduler.cc`)

`Fiber::ptr` is a `std::shared_ptr`. Beside a scheduler, the counts of its fibers, and a step for
each handle that is copied or dropped: by `run()` in its locals `ft` and `cb_fiber`, by the queue, by
`MainFunc`, `YieldToHold` and `YieldToReady` in their local `cur`, and by user code. The destructor
of a `Fiber` asserts that it is in one of three states; it frees the stack.

User code has handles in its variables, in callbacks and in what waits for events and timers. It
gets them from `new Fiber` and `Fiber::GetThis()`, copies and drops them at any time, and schedules
only fibers that it has a handle of; a batch takes the handles out of the vector.

`frames` and `held` are not in the source: they count the handles on a fiber's own stack and those
of user code. The idle fibers, which nobody but `run()` has handles of, are left out.
-/

namespace Coroutine

open Lib

/-- The fibers of a call, one for each handle. -/
def SchedCall.fibers : SchedCall → List FiberPtr
  | .scheduler (some (.fiber f)) _ => [f]
  | .scheduler _ _ => []
  | .batch fcs => fcs.filterMap fun
    | some (.fiber f) => some f
    | _ => none
  | .newFiber _ => []

/-- A scheduler, the counts of its fibers, and where the handles are that it does not have. -/
structure FiberLife (W : Type) where
  s : Scheduler W
  handles : Shared FiberPtr
  frames : FiberPtr → ℕ
  held : FiberPtr → ℕ
  /-- a fiber was used that had been destroyed -/
  dangling : Bool

/-- A step: of the scheduler, or of user code with a handle: from `Fiber::GetThis()` in the task of
a worker, copied, or dropped. -/
inductive LifeAct (W : Type) where
  | sched (a : SchedAct W)
  | getThis (w : W)
  | copy (f : FiberPtr)
  | drop (f : FiberPtr)

namespace Scheduler

variable {W : Type}

/-- What a call does to handles: it copies the one that it pushes, or takes it from the vector, or
makes a fiber. -/
def callOps (s : Scheduler W) : SchedCall → List (HandleOp FiberPtr)
  | .scheduler fc thread => (SchedCall.fibers (.scheduler fc thread)).map .copy
  | .batch _ => []
  | .newFiber _ => [.make s.nfiber]

/-- **What a step does to handles.** -/
def handleOps (pool : Pool W) (s : Scheduler W) : SchedAct W → List (HandleOp FiberPtr)
  | .run w =>
    match (s.worker w).pc with
    | .scan =>
      -- `ft = *it` and `m_fibers.erase(it)`
      match s.m_fibers.find? (s.takes (pool.tid w)) with
      | some { task := .fiber f, .. } => [.copy f, .drop f]
      | _ => []
    | .picked (some ft) =>
      match ft.task, (s.worker w).cb_fiber with
      | .cb _, none => [.make s.nfiber]
      | _, _ => []
    | .picked none =>
      -- the locals of `run()`
      if (s.worker w).idle = .TERM then (s.worker w).cb_fiber.toList.map .drop else []
    | .task .switch f _ =>
      match (s.fiber f).m_ctx, (s.fiber f).m_cb with
      | .entry, some _ => [.copy f]
      | .entry, none => [.copy f, .drop f]
      | .saved, _ => [.drop f]
      | .ended, _ => []
    | .task .fixup f b =>
      match (s.fiber f).m_state, b with
      | .READY, _ => []
      | .TERM, .cb | .EXCEPT, .cb => []
      | _, _ => [.drop f]
    | .task .requeue f _ => [.copy f, .drop f]
    | _ => []
  | .user w u =>
    match (s.worker w).pc with
    | .task .running f _ =>
      match u with
      | .yieldToHold | .yieldToReady => [.copy f]
      | .finish | .throw => [.drop f]
      | .call c => s.callOps c
    | _ => []
  | .call c => s.callOps c
  | .stop => []

/-- The fibers that a step dereferences. -/
def derefs (s : Scheduler W) : SchedAct W → List FiberPtr
  | .run w =>
    match (s.worker w).pc with
    | .scan => s.m_fibers.filterMap fun
      | { task := .fiber f, .. } => some f
      | _ => none
    | .picked (some ft) =>
      match ft.task with
      | .fiber f => [f]
      | .cb _ => (s.worker w).cb_fiber.toList
    | .task _ f _ => [f]
    | _ => []
  | .user w _ =>
    match (s.worker w).pc with
    | .task .running f _ => [f]
    | _ => []
  | .call _ | .stop => []

/-- The handles on the stacks of fibers after a step. -/
def framesAfter (s : Scheduler W) (frames : FiberPtr → ℕ) : SchedAct W → FiberPtr → ℕ
  | .run w =>
    match (s.worker w).pc with
    | .task .switch f _ =>
      match (s.fiber f).m_ctx, (s.fiber f).m_cb with
      | .entry, some _ => Function.update frames f (frames f + 1)
      | .saved, _ => Function.update frames f (frames f - 1)
      | _, _ => frames
    | _ => frames
  | .user w u =>
    match (s.worker w).pc with
    | .task .running f _ =>
      match u with
      | .yieldToHold | .yieldToReady => Function.update frames f (frames f + 1)
      | .finish | .throw => Function.update frames f (frames f - 1)
      | .call _ => frames
    | _ => frames
  | .call _ | .stop => frames

/-- The handles of user code after a call. -/
def heldAfterCall (s : Scheduler W) (held : FiberPtr → ℕ) : SchedCall → FiberPtr → ℕ
  | .scheduler _ _ => held
  | .batch fcs => fun f => held f - (SchedCall.fibers (.batch fcs)).count f
  | .newFiber _ => Function.update held s.nfiber 1

/-- The call that a step is, if it is one. -/
def callOf (s : Scheduler W) : SchedAct W → Option SchedCall
  | .run _ | .stop => none
  | .user w (.call c) =>
    match (s.worker w).pc with
    | .task .running _ _ => some c
    | _ => none
  | .user _ _ => none
  | .call c => some c

end Scheduler

namespace FiberLife

variable {W : Type} [DecidableEq W]

/-- No fiber yet. -/
def init (pool : Pool W) : FiberLife W where
  s := Scheduler.init pool
  handles := .empty
  frames := fun _ => 0
  held := fun _ => 0
  dangling := false

/-- User code has the handles of the fibers that it schedules. -/
def has (x : FiberLife W) (c : SchedCall) : Prop := ∀ f ∈ c.fibers, c.fibers.count f ≤ x.held f

instance (x : FiberLife W) : DecidablePred x.has := fun _ => inferInstanceAs (Decidable (∀ _ ∈ _, _))

/-- The step can be made with the handles that there are. -/
def enabled (x : FiberLife W) (a : SchedAct W) : Prop := ∀ c ∈ x.s.callOf a, x.has c

instance (x : FiberLife W) : DecidablePred x.enabled :=
  fun _ => inferInstanceAs (Decidable (∀ _ ∈ _, _))

/-- `Fiber::~Fiber` asserts that the fiber is not suspended or executing. -/
def refuses (s : Scheduler W) (f : FiberPtr) : Prop := ¬ (s.fiber f).resettable

instance (s : Scheduler W) : DecidablePred (refuses s) := fun _ => inferInstanceAs (Decidable (¬ _))

variable [Fintype W]

/-- A step of the scheduler. -/
def sched (pool : Pool W) (x : FiberLife W) (a : SchedAct W) : FiberLife W :=
  if ∃ f ∈ x.s.derefs a, f ∈ x.handles.destroyed then { x with dangling := true }
  else
    let s' := x.s.step pool a
    { x with
      s := s'
      handles := (x.s.handleOps pool a).foldl (Shared.op (refuses s')) x.handles
      frames := x.s.framesAfter x.frames a
      held := ((x.s.callOf a).map (x.s.heldAfterCall x.held)).getD x.held }

/-- One step; after a fault nothing more happens. -/
def step (pool : Pool W) (x : FiberLife W) (a : LifeAct W) : FiberLife W :=
  if x.s.fault.isSome || x.dangling || x.handles.broken then x
  else
    match a with
    | .sched a => if x.enabled a then x.sched pool a else x
    | .getThis w =>
      match (x.s.worker w).pc with
      | .task .running f _ =>
        { x with
          handles := x.handles.op (refuses x.s) (.copy f)
          held := Function.update x.held f (x.held f + 1) }
      | _ => x
    | .copy f =>
      if x.held f = 0 then x
      else
        { x with
          handles := x.handles.op (refuses x.s) (.copy f)
          held := Function.update x.held f (x.held f + 1) }
    | .drop f =>
      if x.held f = 0 then x
      else
        { x with
          handles := x.handles.op (refuses x.s) (.drop f)
          held := Function.update x.held f (x.held f - 1) }

end FiberLife

end Coroutine
