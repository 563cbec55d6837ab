import Coroutine.Spec.Scheduler
import Coroutine.Spec.Timer

/-!
# Workers and other threads on an `IOManager` (`iomanager.cc`, `scheduler.h`)

The scheduler with `IOManager::idle` in the idle fibers, the timers and the tickle pipe.
Workers are of type `W`, other threads of type `T`. A step is one of `Scheduler`, a section
under `TimerManager::m_mutex`, the test or the write of a call of `tickle()`, or a step of
`epoll_wait`. Which events `epoll_wait` reports and what their contexts schedule are inputs
of the run, and so is every reading of the clock.

A thread that calls `tickle()` does nothing else before the call has returned; it is in the
call from the step on that makes it necessary.

Runs begin after the constructor and go on until `stop()` is called. `time`, `entered`,
`asked`, `arrived` and `inserted` are not in the source: they number the steps and record
when a worker went idle, when it asked for its timeout, when an entry was pushed onto an
empty queue, and when a timer was inserted at the front.
-/

namespace Coroutine

/-- What `tickle()` is called for: a push onto an empty queue; a timer inserted at the front;
an entry passed by, or the end of a worker. -/
inductive TickleFor where
  | push
  | front
  | other
  deriving DecidableEq, Repr

/-- Where a call of `IOManager::tickle` stands: before its test; before its write. -/
inductive Tickle where
  | test (why : TickleFor)
  | write
  deriving DecidableEq, Repr

/-- Where a worker stands in `IOManager::idle`: at the top of the loop; with the answer of
`getNextTimer`; in `epoll_wait`, with the timeout and the time it is up; back from it;
between the sections of `listExpiredCb`, with the clock it read; with the callbacks it
got; at the events. `tickled` says that the pipe is among the events still to be handled. -/
inductive IdlePc where
  | top
  | asked (next_timeout : UInt64)
  | blocked (timeout : Int32) (wakeup : Option ℕ)
  | woken (tickled : Bool)
  | checked (now_ms : UInt64) (tickled : Bool)
  | expired (cbs : List (Option TimerCb)) (tickled : Bool)
  | events (tickled : Bool)
  deriving DecidableEq, Repr

/-- The threads, the addresses of timers, and the functions timers call. -/
structure IoEnv (W : Type) where
  pool : Pool W
  addr : ℕ ↪ ℕ
  function : TimerCb → Callback

/-- What a step reads that is not in the state: the clock, the address of a timer it makes,
and the number of pending events. -/
structure Reads where
  now_ms : UInt64 := 0
  probe : ℕ := 0
  m_pendingEventCount : ℕ := 0

/-- An `IOManager` with its workers and other threads. -/
structure IoThreads (W T : Type) where
  sched : Scheduler W
  timers : TimerManager
  idle : W → IdlePc
  tickling : W ⊕ T → Option Tickle
  pipe : ℕ
  time : ℕ
  entered : W → ℕ
  asked : W → ℕ
  arrived : ℕ → Option ℕ
  inserted : ℕ → Option ℕ

/-- A step: of a worker in `run()`, of the task it executes, of `scheduler()` called by
another thread, of a timer called by a task or another thread, of `epoll_wait` returning
with or without the pipe's event, or interrupted, of `triggerEvent` for an event reported,
or of a call of `tickle()`. -/
inductive IoAct (W T : Type) where
  | run (w : W) (r : Reads)
  | user (w : W) (u : UserAct)
  | call (th : T) (c : SchedCall)
  | timer (p : W ⊕ T) (o : TimerOp)
  | wake (w : W) (tickled : Bool)
  | interrupt (w : W) (now_ms : UInt64)
  | trigger (w : W) (fc : Option FiberOrcb)
  | tickle (p : W ⊕ T)

/-- The thread whose own step the action is, if a call of `tickle()` holds it up. -/
def IoAct.caller {W T : Type} : IoAct W T → Option (W ⊕ T)
  | .run w _ | .user w _ | .trigger w _ => some (.inl w)
  | .call th _ => some (.inr th)
  | .timer p _ => some p
  | _ => none

namespace Scheduler

variable {W : Type}

/-- A round of the loop in `schedule(begin, end)`, with `need_tickle`. -/
def scheduleNext (pusher : Option W) (acc : Scheduler W × Bool) (fc : Option FiberOrcb) :
    Scheduler W × Bool :=
  (acc.1.scheduleNoLock fc (-1) pusher, acc.1.m_fibers.isEmpty || acc.2)

/-- `need_tickle` of a call of `scheduler()`. -/
def needTickle (s : Scheduler W) (pusher : Option W) : SchedCall → Bool
  | .scheduler _ _ => s.m_fibers.isEmpty
  | .batch fcs => (fcs.foldl (scheduleNext pusher) (s, false)).2
  | .newFiber _ => false

/-- `tickle_me` after the section of `run()`: it passed by an entry of another thread. -/
def tickleMe (s : Scheduler W) (tid : ℤ) : Bool :=
  (s.m_fibers.takeWhile fun ft => !s.takes tid ft).any fun ft =>
    decide (ft.thread ≠ -1 ∧ ft.thread ≠ tid)

end Scheduler

namespace TimerOp

/-- The call goes on to `onTimerInsertedAtFront`. -/
def tickles (addr : ℕ ↪ ℕ) (m : TimerManager) : TimerOp → Bool
  | .addTimer now ms cb recurring => (m.addTimer addr now ms (some (.fn cb)) recurring).2.2
  | .addConditionTimer now ms cb weak_cond recurring =>
    (m.addConditionTimer addr now ms cb weak_cond recurring).2.2
  | .reset now ms from_now t => (m.reset addr now ms from_now t).2.2
  | _ => false

/-- The timer that the call passes to `addTimer(Timer::ptr, WriteLock&)`. -/
def inserts (addr : ℕ ↪ ℕ) (m : TimerManager) : TimerOp → Option ℕ
  | .addTimer _ _ _ _ | .addConditionTimer _ _ _ _ _ => some m.made
  | .reset _ ms from_now t =>
    if (ms = (m.timer t).m_ms ∧ from_now = false) ∨ (m.timer t).m_cb.isNone ∨
      (m.find addr t).isNone then none
    else some t
  | _ => none

end TimerOp

/-- The timeout that `idle()` passes to `epoll_wait`, for an answer of `getNextTimer`. -/
def waitTimeout (next_timeout : UInt64) : Int32 :=
  let MAX_TIMEOUT : Int32 := 3000
  let ms := next_timeout.toUInt32.toInt32
  if next_timeout ≠ ~~~ 0 then if ms > MAX_TIMEOUT then MAX_TIMEOUT else ms else MAX_TIMEOUT

/-- What `idle()` writes back to `next_timeout` before each `epoll_wait`. -/
def clampTimeout (next_timeout : UInt64) : UInt64 :=
  let MAX_TIMEOUT : Int32 := 3000
  if next_timeout ≠ ~~~ 0 then
    if next_timeout.toUInt32.toInt32 > MAX_TIMEOUT then MAX_TIMEOUT.toInt64.toUInt64 else next_timeout
  else MAX_TIMEOUT.toInt64.toUInt64

/-- The timeouts that the inner loop of `idle()` passes to `epoll_wait`, in order, when the first
`interrupts` calls end with `EINTR` and the next does not. -/
def epollTimeouts : ℕ → UInt64 → List Int32
  | 0, next_timeout => [(clampTimeout next_timeout).toUInt32.toInt32]
  | interrupts + 1, next_timeout =>
    (clampTimeout next_timeout).toUInt32.toInt32 :: epollTimeouts interrupts (clampTimeout next_timeout)

/-- When the time of `epoll_wait` is up: never, for a negative timeout. -/
def wakeupTime (now_ms : UInt64) (timeout : Int32) : Option ℕ :=
  if timeout < 0 then none else some (now_ms.toNat + timeout.toInt.toNat)

namespace IoThreads

variable {W T : Type} [DecidableEq W] [DecidableEq T]

/-- An `IOManager` made at time `now_ms`. -/
def init (env : IoEnv W) (now_ms : UInt64) : IoThreads W T :=
  { sched := Scheduler.init env.pool, timers := TimerManager.init now_ms
    idle := fun _ => .top, tickling := fun _ => none, pipe := 0
    time := 0, entered := fun _ => 0, asked := fun _ => 0
    arrived := fun _ => none, inserted := fun _ => none }

/-- Move a worker in `idle()`. -/
def setIdle (s : IoThreads W T) (w : W) (pc : IdlePc) : IoThreads W T :=
  { s with idle := Function.update s.idle w pc }

/-- Begin, advance or end a call of `tickle()`. -/
def setTickling (s : IoThreads W T) (p : W ⊕ T) (t : Option Tickle) : IoThreads W T :=
  { s with tickling := Function.update s.tickling p t }

/-- The process ends. -/
def abort (s : IoThreads W T) (e : Fault) : IoThreads W T := { s with sched := s.sched.abort e }

/-- A section of the scheduler that pushes entries, after which `need_tickle` is tested. -/
def push (s : IoThreads W T) (p : W ⊕ T) (sched : Scheduler W) (need_tickle : Bool) :
    IoThreads W T :=
  let s' := if need_tickle then s.setTickling p (some (.test .push)) else s
  { s' with
    sched := sched
    arrived := fun i =>
      if i < s.sched.pushed.length then s.arrived i
      else if s.sched.m_fibers = [] then some s.time else none }

/-- `scheduler()` called by `p`, in a task of worker `pusher` if any. -/
def scheduler (s : IoThreads W T) (p : W ⊕ T) (pusher : Option W) (c : SchedCall) :
    IoThreads W T :=
  s.push p (s.sched.call pusher c) (s.sched.needTickle pusher c)

/-- A call on the timers by `p`. -/
def timer (env : IoEnv W) (s : IoThreads W T) (p : W ⊕ T) (o : TimerOp) : IoThreads W T :=
  match o.call env.addr s.timers with
  | .error e => s.abort e
  | .ok timers =>
    let s' := if o.tickles env.addr s.timers then s.setTickling p (some (.test .front)) else s
    { s' with
      timers := timers
      inserted := fun t =>
        if o.inserts env.addr s.timers = some t ∧ timers.m_timers.head? = some t then some s.time
        else s.inserted t }

/-! ## `IOManager::idle` -/

/-- The next step of worker `w` in `IOManager::idle`. -/
def idleStep (env : IoEnv W) (s : IoThreads W T) (w : W) (r : Reads) : IoThreads W T :=
  match s.idle w with
  | .top =>
    let (next_timeout, timers) := s.timers.getNextTimer r.now_ms
    { s.setIdle w (.asked next_timeout) with
      timers := timers, asked := Function.update s.asked w s.time }
  | .asked next_timeout =>
    -- the rest of `stopping(next_timeout)`
    if next_timeout = ~~~ 0 ∧ r.m_pendingEventCount = 0 ∧ s.sched.stopping then
      { s with sched := s.sched.setWorker w { s.sched.worker w with pc := .idleOut, idle := .TERM } }
    else
      let timeout := waitTimeout next_timeout
      s.setIdle w (.blocked timeout (wakeupTime r.now_ms timeout))
  | .blocked _ _ => s
  | .woken tickled =>
    if s.timers.m_timers = [] then s.setIdle w (.events tickled)
    else s.setIdle w (.checked r.now_ms tickled)
  | .checked now_ms tickled =>
    match s.timers.listExpired env.addr now_ms r.probe with
    | .error e => s.abort e
    | .ok (cbs, timers) => { s.setIdle w (.expired cbs tickled) with timers := timers }
  | .expired cbs tickled =>
    let s' := s.setIdle w (.events tickled)
    if cbs = [] then s'
    else s'.scheduler (.inl w) none (.batch (cbs.map (·.map fun cb => .cb (env.function cb))))
  | .events true =>
    if 0 < s.pipe then { s with pipe := s.pipe - 1 } else s.setIdle w (.events false)
  | .events false =>
    { s with sched := s.sched.setWorker w { s.sched.worker w with pc := .idleOut, idle := .HOLD } }

/-! ## Steps -/

/-- The next step of worker `w`. -/
def runStep (env : IoEnv W) (s : IoThreads W T) (w : W) (r : Reads) : IoThreads W T :=
  let sched := s.sched.runStep env.pool w
  match (s.sched.worker w).pc with
  | .idle => s.idleStep env w r
  | .idleIn => { s.setIdle w .top with sched := sched }
  | .picked none =>
    if (s.sched.worker w).idle = .TERM then
      { s.setTickling (.inl w) (some (.test .other)) with sched := sched }
    else { s with sched := sched, entered := Function.update s.entered w s.time }
  | .scan =>
    let s' := if s.sched.tickleMe (env.pool.tid w) then
      s.setTickling (.inl w) (some (.test .other)) else s
    { s' with sched := sched }
  | .task .requeue _ _ => s.push (.inl w) sched s.sched.m_fibers.isEmpty
  | _ => { s with sched := sched }

/-- A step of the user code that worker `w` executes. -/
def userStep (s : IoThreads W T) (w : W) (u : UserAct) : IoThreads W T :=
  match u, (s.sched.worker w).pc with
  | .call c, .task .running _ _ => s.scheduler (.inl w) (some w) c
  | _, _ => { s with sched := s.sched.userStep w u }

/-- `p` executes user code. -/
def inUser (s : IoThreads W T) : W ⊕ T → Bool
  | .inl w => ((s.sched.worker w).pc matches .task .running _ _)
  | .inr _ => true

/-- `epoll_wait` returns to worker `w`, with the pipe's event if `tickled`. -/
def wake (s : IoThreads W T) (w : W) (tickled : Bool) : IoThreads W T :=
  match (s.sched.worker w).pc, s.idle w with
  | .idle, .blocked _ _ => if tickled ∧ s.pipe = 0 then s else s.setIdle w (.woken tickled)
  | _, _ => s

/-- `epoll_wait` is interrupted and called again with the same timeout. -/
def interrupt (s : IoThreads W T) (w : W) (now_ms : UInt64) : IoThreads W T :=
  match (s.sched.worker w).pc, s.idle w with
  | .idle, .blocked timeout _ => s.setIdle w (.blocked timeout (wakeupTime now_ms timeout))
  | _, _ => s

/-- `triggerEvent` for an event that was reported to worker `w`. -/
def trigger (s : IoThreads W T) (w : W) (fc : Option FiberOrcb) : IoThreads W T :=
  match (s.sched.worker w).pc, s.idle w with
  | .idle, .events _ => s.scheduler (.inl w) none (.scheduler fc (-1))
  | _, _ => s

/-- The next step of `p`'s call of `IOManager::tickle`. -/
def tickle (s : IoThreads W T) (p : W ⊕ T) : IoThreads W T :=
  match s.tickling p with
  | none => s
  | some (.test _) =>
    if 0 < s.sched.m_idleThreadCount then s.setTickling p none
    else s.setTickling p (some .write)
  | some .write => { s.setTickling p none with pipe := s.pipe + 1 }

/-- One action. -/
def act (env : IoEnv W) (s : IoThreads W T) : IoAct W T → IoThreads W T
  | .run w r => s.runStep env w r
  | .user w u => s.userStep w u
  | .call th c => s.scheduler (.inr th) none c
  | .timer p o => if s.inUser p then s.timer env p o else s
  | .wake w tickled => s.wake w tickled
  | .interrupt w now_ms => s.interrupt w now_ms
  | .trigger w fc => s.trigger w fc
  | .tickle p => s.tickle p

/-- One step; after a fault nothing more happens. -/
def step (env : IoEnv W) (s : IoThreads W T) (a : IoAct W T) : IoThreads W T :=
  if s.sched.fault.isSome then s
  else if ∃ p ∈ a.caller, (s.tickling p).isSome then s
  else { s.act env a with time := s.time + 1 }

end IoThreads

end Coroutine
