import Coroutine.Spec.Scheduler

/-!
# The threads of a scheduler (`thread.h`, `thread.cc`, `scheduler.cc`)

A scheduler from its constructor on. In `start()` its owner has `m_mutex` and constructs the threads
one after another; the constructor of a `Thread` waits at `m_semaphore` until the new thread has
taken its callback. In `stop()` it joins them. The owner is to call `start()`, once or more, and then
`stop()`, once (`InOrder`): the workers of `Scheduler` do not come back once they have left `run()`,
so a `start()` after `stop()` has no meaning here. The owner's thread is no `Thread`.

A step is one of the owner in these calls, one of a new thread before it is in `Scheduler::run`, or
a step of `Scheduler`, which waits while it needs `m_mutex` and `start()` has it. `pthread_create`
may fail, and then the constructor and `start()` throw.

`called` and `threw` are not in the source: they record that a call of `start()` has ended, and
that one has ended so. `joined` and `detached` count the calls of `pthread_join` and
`pthread_detach`.
-/

namespace Coroutine

/-- `Thread`. Of `m_thread` it matters whether it is 0; the semaphore is its count. -/
structure Thread (β : Type) where
  m_id : ℤ := -1
  m_thread : Bool := false
  m_cb : Option β
  m_name : String
  m_semaphore : ℕ := 0
  deriving DecidableEq, Repr

namespace Thread

variable {β : Type}

/-- The members before `pthread_create`. -/
def new (cb : Option β) (name : String) : Thread β :=
  { m_cb := cb, m_name := if name = "" then "UNKNOW" else name }

/-- `Semaphore::notify`. -/
def notify (t : Thread β) : Thread β := { t with m_semaphore := t.m_semaphore + 1 }

/-- `Semaphore::wait`, when it does not block. -/
def wait (t : Thread β) : Thread β := { t with m_semaphore := t.m_semaphore - 1 }

end Thread

/-- The `thread_local` variables of a thread: the `Thread` of which worker `t_thread` points to,
`t_thread_name`, and whether `t_scheduler` is the scheduler. -/
structure Locals (W : Type) where
  t_thread : Option W := none
  t_thread_name : String := "UNKNOW"
  t_scheduler : Bool := false
  deriving DecidableEq, Repr

/-- What a pool's threads are given: `Scheduler::run` of the scheduler. -/
inductive PoolCb where
  | run
  deriving DecidableEq, Repr

/-- Where a thread stands: not created; at the start of `Thread::run`; before the swap of the
callback; before `notify()` with it; about to call it; in `Scheduler::run`. -/
inductive Birth where
  | unborn
  | enter
  | swap
  | notify (cb : Option PoolCb)
  | call (cb : Option PoolCb)
  | run
  deriving DecidableEq, Repr

/-- Where the owner stands: in neither call, or in `stop()` before the threads; in `start()`, at
its test; about to construct a thread; in the constructor of that thread, waiting; in `stop()`,
with the threads in `thrs` and those of them still to be joined. -/
inductive OwnerPc (W : Type) where
  | out
  | test
  | create (i : ℕ)
  | wait (i : ℕ)
  | join (thrs rest : List (Option W))
  deriving DecidableEq

/-- A pool whose threads are constructed in an order: all workers but the root fiber's. `fiberId` is
`GetFiberId()` in the constructor. -/
structure Crew (W : Type) extends Pool W where
  m_name : String
  fiberId : ℤ
  order : List W
  nodup : order.Nodup
  mem_order : ∀ w, w ∈ order ↔ root ≠ some w

namespace Crew

variable {W : Type} (crew : Crew W)

/-- `m_threadCount`. -/
def m_threadCount : ℕ := crew.order.length

/-- The name of thread `i`. -/
def threadName (i : ℕ) : String := crew.m_name ++ "_" ++ toString i

end Crew

/-- A scheduler and its threads. -/
structure ThreadPool (W : Type) where
  sched : Scheduler W
  m_threads : List (Option W)
  m_threadIds : List ℤ
  thread : W → Thread PoolCb
  locals : W → Locals W
  birth : W → Birth
  owner : OwnerPc W
  fault : Option Fault
  called : Bool
  threw : Bool
  joined : W → ℕ
  detached : W → ℕ

/-- A step: of the owner in `start()`, with whether `pthread_create` succeeds there; of the owner in
`stop()`; of a new thread; or one of the scheduler. -/
inductive PoolAct (W : Type) where
  | start (created : Bool)
  | stop
  | born (w : W)
  | sched (a : SchedAct W)

/-- A call takes `m_mutex`. -/
def SchedCall.locks : SchedCall → Bool
  | .newFiber _ => false
  | .scheduler _ _ | .batch _ => true

/-- The next step takes `m_mutex`. -/
def Scheduler.locks {W : Type} (s : Scheduler W) : SchedAct W → Bool
  | .run w =>
    match (s.worker w).pc with
    | .scan | .task .requeue _ _ | .idle => true
    | _ => false
  | .user _ (.call c) => c.locks
  | .user _ _ => false
  | .call c => c.locks
  | .stop => s.stopPc = .earlyTest || s.stopPc = .test

namespace ThreadPool

variable {W : Type} [DecidableEq W]

/-- The owner is in `start()`, with `m_mutex`. -/
def starting (s : ThreadPool W) : Bool :=
  match s.owner with
  | .test | .create _ | .wait _ => true
  | .out | .join _ _ => false

/-- Write to a `Thread`. -/
def setThread (s : ThreadPool W) (w : W) (t : Thread PoolCb) : ThreadPool W :=
  { s with thread := Function.update s.thread w t }

/-- Write to the variables of a thread. -/
def setLocals (s : ThreadPool W) (w : W) (l : Locals W) : ThreadPool W :=
  { s with locals := Function.update s.locals w l }

/-- `Thread::SetName`, called by the thread of worker `w`. -/
def SetName (s : ThreadPool W) (w : W) (name : String) : ThreadPool W :=
  if name = "" then s
  else
    let s := match (s.locals w).t_thread with
      | some v => s.setThread v { s.thread v with m_name := name }
      | none => s
    s.setLocals w { s.locals w with t_thread_name := name }

/-- The scheduler before its constructor has looked at `use_caller`. -/
def new (crew : Crew W) : ThreadPool W where
  sched := { Scheduler.init crew.toPool with m_stopping := true }
  m_threads := []
  m_threadIds := []
  thread := fun _ => .new none ""
  locals := fun _ => {}
  birth := fun _ => .unborn
  owner := .out
  fault := none
  called := false
  threw := false
  joined := fun _ => 0
  detached := fun _ => 0

/-- The scheduler as constructed. -/
def init (crew : Crew W) : ThreadPool W :=
  match crew.root with
  | some w =>
    let s := ((new crew).setLocals w { t_scheduler := true }).SetName w crew.m_name
    { s with m_threadIds := s.m_threadIds ++ [crew.fiberId] }
  | none => new crew

/-- Move a thread. -/
def setBirth (s : ThreadPool W) (w : W) (b : Birth) : ThreadPool W :=
  { s with birth := Function.update s.birth w b }

/-- The owner's next step in `start()`. -/
def startStep (crew : Crew W) (s : ThreadPool W) (created : Bool) : ThreadPool W :=
  match s.owner with
  | .out => { s with owner := .test }
  | .test =>
    if s.sched.m_stopping = false then { s with owner := .out, called := true }
    else
      let s := { s with sched := { s.sched with m_stopping := false } }
      if s.m_threads = [] then
        { s with m_threads := List.replicate crew.m_threadCount none, owner := .create 0 }
      else { s with fault := some .assertion }
  | .create i =>
    match crew.order[i]? with
    | none => { s with owner := .out, called := true }
    | some w =>
      let s := s.setThread w (.new (some .run) (crew.threadName i))
      if created then
        { (s.setThread w { s.thread w with m_thread := true }).setBirth w .enter with owner := .wait i }
      else { s with owner := .out, called := true, threw := true }
  | .wait i =>
    match crew.order[i]? with
    | none => s
    | some w =>
      if (s.thread w).m_semaphore = 0 then s
      else
        let s := s.setThread w (s.thread w).wait
        { s with
          m_threads := s.m_threads.set i (some w)
          m_threadIds := s.m_threadIds ++ [(s.thread w).m_id]
          owner := .create (i + 1) }
  | .join _ _ => s

/-- The next step of a new thread: `Thread::run`, and `Scheduler::run` up to its loop. -/
def bornStep (crew : Crew W) (s : ThreadPool W) (w : W) : ThreadPool W :=
  let t := s.thread w
  match s.birth w with
  | .unborn | .run => s
  | .enter =>
    let s := s.setLocals w { s.locals w with t_thread := some w, t_thread_name := t.m_name }
    (s.setThread w { t with m_id := crew.tid w }).setBirth w .swap
  | .swap => (s.setThread w { t with m_cb := none }).setBirth w (.notify t.m_cb)
  | .notify cb => (s.setThread w t.notify).setBirth w (.call cb)
  | .call none => { s with fault := some .assertion }
  | .call (some .run) => (s.setLocals w { s.locals w with t_scheduler := true }).setBirth w .run

variable [Fintype W]

/-- The end of `stop()`: `thrs` is destroyed, and with it each `Thread`. -/
def destroy (s : ThreadPool W) (thrs : List (Option W)) : ThreadPool W :=
  { s with
    detached := fun w => s.detached w + if some w ∈ thrs ∧ (s.thread w).m_thread then 1 else 0
    sched := { s.sched with stopPc := .done } }

/-- The owner's next step in `stop()`. -/
def stopStep (crew : Crew W) (s : ThreadPool W) : ThreadPool W :=
  match s.owner with
  | .test | .create _ | .wait _ => s
  | .out =>
    if s.sched.stopPc = .join then
      { s with owner := .join s.m_threads s.m_threads, m_threads := [] }
    else { s with sched := s.sched.step crew.toPool .stop }
  | .join thrs [] => { s.destroy thrs with owner := .out }
  | .join _ (none :: _) => { s with fault := some .undefined }
  | .join thrs (some w :: rest) =>
    let t := s.thread w
    if t.m_thread = false then { s with owner := .join thrs rest }
    else if (s.sched.worker w).pc = .exited then
      { s.setThread w { t with m_thread := false } with
        joined := Function.update s.joined w (s.joined w + 1), owner := .join thrs rest }
    else s

/-- **The owner's order**: `start()` once or more, then `stop()` once, each call after the one before
it has returned or thrown. -/
def InOrder (s : ThreadPool W) : PoolAct W → Prop
  | .start _ => s.sched.stopPc = .out
  | .stop => s.starting = false ∧ s.called = true ∧ s.sched.stopPc ≠ .done
  | .born _ | .sched _ => True

instance (s : ThreadPool W) : DecidablePred s.InOrder
  | .start _ => inferInstanceAs (Decidable (_ = _))
  | .stop => inferInstanceAs (Decidable (_ ∧ _ ∧ _))
  | .born _ | .sched _ => inferInstanceAs (Decidable True)

/-- The worker is in `Scheduler::run`, or, of the root fiber, may be. -/
def running (crew : Crew W) (s : ThreadPool W) (w : W) : Prop :=
  crew.root = some w ∨ s.birth w = .run

instance (crew : Crew W) (s : ThreadPool W) (w : W) : Decidable (s.running crew w) :=
  inferInstanceAs (Decidable (_ ∨ _))

/-- The thread that a step of the scheduler is of can make it. -/
def allowed (crew : Crew W) (s : ThreadPool W) : SchedAct W → Prop
  | .run w | .user w _ => s.running crew w
  | .call _ => True
  | .stop => False

instance (crew : Crew W) (s : ThreadPool W) : DecidablePred (s.allowed crew)
  | .run w | .user w _ => inferInstanceAs (Decidable (s.running crew w))
  | .call _ => inferInstanceAs (Decidable True)
  | .stop => inferInstanceAs (Decidable False)

/-- It need not wait for `m_mutex`. -/
def enabled (crew : Crew W) (s : ThreadPool W) (a : SchedAct W) : Prop :=
  s.allowed crew a ∧ (s.starting = true → s.sched.locks a = false)

instance (crew : Crew W) (s : ThreadPool W) : DecidablePred (s.enabled crew) :=
  fun _ => inferInstanceAs (Decidable (_ ∧ _))

/-- One step; after a fault nothing more happens. -/
def step (crew : Crew W) (s : ThreadPool W) (a : PoolAct W) : ThreadPool W :=
  if s.fault.isSome || s.sched.fault.isSome then s
  else
    match a with
    | .start created => s.startStep crew created
    | .stop => s.stopStep crew
    | .born w => s.bornStep crew w
    | .sched a => if s.enabled crew a then { s with sched := s.sched.step crew.toPool a } else s

end ThreadPool

end Coroutine
