import Coroutine.Spec.Event
import Coroutine.Spec.IoThreads

/-!
# Stopping an `IOManager` (`iomanager.cc`, `scheduler.cc`)

The scheduler with `IOManager::idle` in the idle fibers, the timers, the events, and `stop()`
with the `stopping()` of `IOManager`, which reads three things one after the other. Workers are of
type `W`, other threads of type `T`. A step is one of `Scheduler`, a section under
`TimerManager::m_mutex` or under the mutex of an `FdContext`, or one of the reads of `stopping()`.
Where a section calls `triggerEvent`, that and the decrement after it are steps of their own, and
the context stays locked meanwhile. `epoll_wait` may return at any time, with any events; the
tickle pipe, which only makes it return, is left out: it is in `IoThreads`, and until `stop()` is
called a run here is one there (`runs_threads`).

`extracted` and `entry` are not in the source: they record the callbacks that `listExpiredCb` has
taken out, and the number of the queue entry that each of them got.
-/

namespace Coroutine

/-- Where a call of `stopping(timeout)` stands: before `getNextTimer`; with its answer; with
no event pending. -/
inductive Stopping where
  | start
  | asked (timeout : UInt64)
  | counted
  deriving DecidableEq, Repr

/-- Where a worker stands in `IOManager::idle`: in `stopping(next_timeout)`; in `epoll_wait`;
back from it, with the events reported; between the sections of `listExpiredCb`, with the clock
it read; with the callbacks it got, of which `first` is the number of the first; at the events. -/
inductive Idling where
  | testing (t : Stopping)
  | waiting
  | woken (events : List (ℕ × BitVec 32))
  | checked (now_ms : UInt64) (events : List (ℕ × BitVec 32))
  | expired (first : ℕ) (cbs : List (Option TimerCb)) (events : List (ℕ × BitVec 32))
  | events (events : List (ℕ × BitVec 32))
  deriving DecidableEq

/-- What is left of a section under the mutex of `fd_ctx` that calls `triggerEvent`: the events;
whether the first of them has been triggered and is still counted; whether it is `cancelAll`. -/
structure Triggers where
  fd_ctx : ℕ
  events : List Event
  triggered : Bool
  all : Bool
  deriving DecidableEq

/-- The threads, what timers call, the scheduler's own number, and the kernel. -/
structure StopEnv (W κ : Type) extends IoEnv W where
  this : ℕ
  ctl : EpollCtl κ

/-- An `IOManager` with its workers and other threads. -/
structure IoStop (W T κ : Type) where
  sched : Scheduler W
  timers : TimerManager
  io : IOManager κ
  idle : W → Idling
  /-- `stopping()` in `stop()` -/
  test : Stopping
  calls : W ⊕ T → Option Triggers
  locked : ℕ → Bool
  extracted : List (Option TimerCb)
  entry : ℕ → Option ℕ

/-- A step: of a worker in `run()` or `idle()`, with the clock and the address of a timer it
makes; of the task it executes; of `scheduler()` called by another thread; of a call on the
timers or the events by a task or another thread; of the triggers of such a call or of `idle()`;
of `epoll_wait` returning; of the thread in `stop()`. -/
inductive StopAct (W T : Type) where
  | run (w : W) (now_ms : UInt64) (probe : ℕ)
  | user (w : W) (u : UserAct)
  | call (th : T) (c : SchedCall)
  | timer (p : W ⊕ T) (o : TimerOp)
  | event (p : W ⊕ T) (o : EventOp)
  | trigger (p : W ⊕ T)
  | wake (w : W) (events : List (ℕ × BitVec 32))
  | stop (now_ms : UInt64)

/-- The thread whose own step the action is, if its triggers hold it up. -/
def StopAct.caller {W T : Type} : StopAct W T → Option (W ⊕ T)
  | .run w _ _ | .user w _ | .wake w _ => some (.inl w)
  | .call th _ => some (.inr th)
  | .timer p _ | .event p _ => some p
  | .trigger _ | .stop _ => none

/-- A step of a thread that is not a worker, other than in `stop()`. -/
def StopAct.outside {W T : Type} : StopAct W T → Bool
  | .call _ _ | .timer (.inr _) _ | .event (.inr _) _ | .trigger (.inr _) => true
  | _ => false

namespace IOManager

variable {κ : Type} (ctl : EpollCtl κ)

/-- A turn of the event loop of `idle` up to `epoll_ctl`: the events it goes on to trigger, if
it gets there. -/
def turn (s : IOManager κ) (p : ℕ) (events : BitVec 32) : Option (List Event) × IOManager κ :=
  let fd_ctx := s.fdctx p
  let real_events := realEvents events
  if fd_ctx.m_events &&& real_events = 0 then (none, s)
  else
    let (op, left) := dropRequest fd_ctx real_events
    let (rt2, k) := ctl s.kernel op fd_ctx.fd left
    if rt2 ≠ 0 then (none, { s with kernel := k })
    else
      (some ((if real_events &&& Event.READ.bits ≠ 0 then [.READ] else []) ++
        (if real_events &&& Event.WRITE.bits ≠ 0 then [.WRITE] else [])), { s with kernel := k })

/-- The section of `cancelEvent` up to `epoll_ctl`. -/
def cancelOne (s : IOManager κ) (fd : Int32) (event : Event) (p : ℕ) :
    Option (List Event) × IOManager κ :=
  let fd_ctx := s.fdctx p
  if fd_ctx.m_events &&& event.bits = 0 then (none, s)
  else
    let (op, events) := dropRequest fd_ctx event.bits
    let (rt, k) := ctl s.kernel op fd events
    (if rt ≠ 0 then none else some [event], { s with kernel := k })

/-- The section of `cancelAll` up to `epoll_ctl`. -/
def cancelBoth (s : IOManager κ) (fd : Int32) (p : ℕ) : Option (List Event) × IOManager κ :=
  let fd_ctx := s.fdctx p
  if fd_ctx.m_events = 0 then (none, s)
  else
    let (rt, k) := ctl s.kernel .DEL fd 0
    if rt ≠ 0 then (none, { s with kernel := k })
    else
      (some ((if fd_ctx.m_events &&& Event.READ.bits ≠ 0 then [.READ] else []) ++
        (if fd_ctx.m_events &&& Event.WRITE.bits ≠ 0 then [.WRITE] else [])), { s with kernel := k })

end IOManager

namespace IoStop

variable {W T κ : Type} [DecidableEq W] [DecidableEq T]

/-- An `IOManager` made at time `now_ms`, on a kernel in state `k`. -/
def init (env : StopEnv W κ) (k : κ) (now_ms : UInt64) : IoStop W T κ :=
  { sched := Scheduler.init env.pool, timers := TimerManager.init now_ms, io := IOManager.init k
    idle := fun _ => .testing .start, test := .start, calls := fun _ => none
    locked := fun _ => false, extracted := [], entry := fun _ => none }

/-- Move a worker in `idle()`. -/
def setIdle (s : IoStop W T κ) (w : W) (pc : Idling) : IoStop W T κ :=
  { s with idle := Function.update s.idle w pc }

/-- The process ends. -/
def abort (s : IoStop W T κ) (e : Fault) : IoStop W T κ := { s with sched := s.sched.abort e }

/-! ## `stopping()` -/

/-- The next step of a call of `stopping(timeout)`: where it then stands, or what it returns. -/
def stoppingStep (s : IoStop W T κ) (now_ms : UInt64) : Stopping → (Stopping ⊕ Bool) × TimerManager
  | .start =>
    let (timeout, timers) := s.timers.getNextTimer now_ms
    (.inl (.asked timeout), timers)
  | .asked timeout =>
    (if timeout = ~~~ 0 ∧ s.io.m_pendingEventCount = 0 then .inl .counted else .inr false, s.timers)
  | .counted => (.inr (decide s.sched.stopping), s.timers)

/-- A step of `stop()` in `stopping()`: it goes on to `yes` or to `no`. -/
def testStep (s : IoStop W T κ) (now_ms : UInt64) (yes no : StopPc) : IoStop W T κ :=
  let (r, timers) := s.stoppingStep now_ms s.test
  match r with
  | .inl t => { s with timers := timers, test := t }
  | .inr b =>
    { s with
      timers := timers, test := .start
      sched := { s.sched with stopPc := if b then yes else no } }

/-- The next step of the thread in `stop()`. -/
def stopStep [Fintype W] (env : StopEnv W κ) (s : IoStop W T κ) (now_ms : UInt64) : IoStop W T κ :=
  match s.sched.stopPc with
  | .earlyTest => s.testStep now_ms .done .mark
  | .test => s.testStep now_ms .join .call
  | _ => { s with sched := s.sched.stopStep env.pool }

/-! ## Triggers -/

/-- A section under the mutex of `p` goes on to trigger events. -/
def begin (s : IoStop W T κ) (q : W ⊕ T) (p : ℕ) (all : Bool) : Option (List Event) → IoStop W T κ
  | none => s
  | some events =>
    { s with
      calls := Function.update s.calls q (some ⟨p, events, false, all⟩)
      locked := Function.update s.locked p true }

/-- `q` executes user code or `idle()`. -/
def inCall (s : IoStop W T κ) : W ⊕ T → Bool
  | .inl w => ((s.sched.worker w).pc matches .task .running _ _ | .idle)
  | .inr _ => true

/-- The next step of `q`'s triggers. -/
def trigger (env : StopEnv W κ) (s : IoStop W T κ) (q : W ⊕ T) : IoStop W T κ :=
  match s.calls q with
  | none => s
  | some ⟨p, [], _, all⟩ =>
    -- the assertion at the end of `cancelAll`
    if all ∧ (s.io.fdctx p).m_events ≠ 0 then s.abort .assertion
    else
      { s with
        calls := Function.update s.calls q none, locked := Function.update s.locked p false }
  | some ⟨p, event :: events, false, all⟩ =>
    match (s.io.fdctx p).triggerEvent event with
    | .error e => s.abort e
    | .ok (fd_ctx, scheduler, task) =>
      { s with
        io := s.io.set p fd_ctx
        sched := if scheduler = env.this then s.sched.scheduleNoLock task (-1) none else s.sched
        calls := Function.update s.calls q (some ⟨p, event :: events, true, all⟩) }
  | some ⟨p, _ :: events, true, all⟩ =>
    { s with
      io := { s.io with m_pendingEventCount := s.io.m_pendingEventCount - 1 }
      calls := Function.update s.calls q (some ⟨p, events, false, all⟩) }

/-! ## `IOManager::idle` -/

/-- `scheduleNoLock` for callback number `k` of those extracted. -/
def handOne (env : StopEnv W κ) (s : IoStop W T κ) (k : ℕ) (cb : Option TimerCb) : IoStop W T κ :=
  { s with
    sched := s.sched.scheduleNoLock (cb.map fun cb => .cb (env.function cb)) (-1) none
    entry := if cb.isSome then Function.update s.entry k (some s.sched.pushed.length) else s.entry }

/-- `scheduler(cbs.begin(), cbs.end())`. -/
def handOut (env : StopEnv W κ) : IoStop W T κ → ℕ → List (Option TimerCb) → IoStop W T κ
  | s, _, [] => s
  | s, k, cb :: cbs => handOut env (s.handOne env k cb) (k + 1) cbs

/-- `idle()` ends, or yields. -/
def leaveIdle (s : IoStop W T κ) (w : W) (st : FiberState) : IoStop W T κ :=
  { s with sched := s.sched.setWorker w { s.sched.worker w with pc := .idleOut, idle := st } }

/-- The next step of worker `w` in `IOManager::idle`. -/
def idleStep (env : StopEnv W κ) (s : IoStop W T κ) (w : W) (now_ms : UInt64) (probe : ℕ) :
    IoStop W T κ :=
  match s.idle w with
  | .testing t =>
    let (r, timers) := s.stoppingStep now_ms t
    match r with
    | .inl t => { s.setIdle w (.testing t) with timers := timers }
    | .inr true => { s.leaveIdle w .TERM with timers := timers }
    | .inr false => { s.setIdle w .waiting with timers := timers }
  | .waiting => s
  | .woken events =>
    if s.timers.m_timers = [] then s.setIdle w (.events events)
    else s.setIdle w (.checked now_ms events)
  | .checked now_ms events =>
    match s.timers.listExpired env.addr now_ms probe with
    | .error e => s.abort e
    | .ok (cbs, timers) =>
      { s.setIdle w (.expired s.extracted.length cbs events) with
        timers := timers, extracted := s.extracted ++ cbs }
  | .expired first cbs events => (s.handOut env first cbs).setIdle w (.events events)
  | .events [] => s.leaveIdle w .HOLD
  | .events ((p, mask) :: events) =>
    if s.locked p then s
    else
      let (todo, io) := s.io.turn env.ctl p mask
      ({ s with io := io }.begin (.inl w) p false todo).setIdle w (.events events)

/-! ## Steps -/

/-- The next step of worker `w`. -/
def runStep (env : StopEnv W κ) (s : IoStop W T κ) (w : W) (now_ms : UInt64) (probe : ℕ) :
    IoStop W T κ :=
  match (s.sched.worker w).pc with
  | .idle => s.idleStep env w now_ms probe
  | .idleIn => { s.setIdle w (.testing .start) with sched := s.sched.runStep env.pool w }
  | _ => { s with sched := s.sched.runStep env.pool w }

/-- `q` executes user code. -/
def inUser (s : IoStop W T κ) : W ⊕ T → Bool
  | .inl w => ((s.sched.worker w).pc matches .task .running _ _)
  | .inr _ => true

/-- A call on the timers by `q`. -/
def timer (env : StopEnv W κ) (s : IoStop W T κ) (o : TimerOp) : IoStop W T κ :=
  match o.call env.addr s.timers with
  | .error e => s.abort e
  | .ok timers => { s with timers := timers }

/-- What `addEvent` reads of the thread that calls it; of a thread that is not a worker, `other`. -/
def caller (env : StopEnv W κ) (s : IoStop W T κ) (other : Caller) : W ⊕ T → Caller
  | .inl w =>
    match (s.sched.worker w).pc with
    | .task .running f _ => ⟨some env.this, f, (s.sched.fiber f).m_state = .EXEC⟩
    | _ => other
  | .inr _ => other

/-- The context that `fd` has is locked. -/
def busy (s : IoStop W T κ) (fd : Int32) : Bool :=
  match s.io.slot fd with
  | .ok p => s.locked p
  | .error _ => false

/-- `cancelEvent` or `cancelAll` by `q`, `request` its section up to `epoll_ctl`. -/
def cancel (s : IoStop W T κ) (q : W ⊕ T) (fd : Int32) (all : Bool)
    (request : ℕ → Option (List Event) × IOManager κ) : IoStop W T κ :=
  if s.io.inTable fd then
    match s.io.slot fd with
    | .error e => s.abort e
    | .ok p =>
      let (todo, io) := request p
      { s with io := io }.begin q p all todo
  else s

/-- A call on the events by `q`. -/
def event (env : StopEnv W κ) (s : IoStop W T κ) (q : W ⊕ T) (o : EventOp) : IoStop W T κ :=
  match o with
  | .addEvent other fd event cb =>
    if s.busy fd then s
    else
      match s.io.addEvent env.ctl (s.caller env other q) fd event cb with
      | .error e => s.abort e
      | .ok (_, io) => { s with io := io }
  | .delEvent fd event =>
    if s.busy fd then s
    else
      match s.io.delEvent env.ctl fd event with
      | .error e => s.abort e
      | .ok (_, io) => { s with io := io }
  | .cancelEvent fd event =>
    if s.busy fd then s else s.cancel q fd false (s.io.cancelOne env.ctl fd event)
  | .cancelAll fd => if s.busy fd then s else s.cancel q fd true (s.io.cancelBoth env.ctl fd)
  | .dispatch _ _ => s

/-- `epoll_wait` returns to worker `w`. -/
def wake (s : IoStop W T κ) (w : W) (events : List (ℕ × BitVec 32)) : IoStop W T κ :=
  match (s.sched.worker w).pc, s.idle w with
  | .idle, .waiting => s.setIdle w (.woken events)
  | _, _ => s

variable [Fintype W]

/-- One action. -/
def act (env : StopEnv W κ) (s : IoStop W T κ) : StopAct W T → IoStop W T κ
  | .run w now_ms probe => s.runStep env w now_ms probe
  | .user w u => { s with sched := s.sched.userStep w u }
  | .call _ c => { s with sched := s.sched.call none c }
  | .timer q o => if s.inUser q then s.timer env o else s
  | .event q o => if s.inUser q then s.event env q o else s
  | .trigger q => if s.inCall q then s.trigger env q else s
  | .wake w events => s.wake w events
  | .stop now_ms => s.stopStep env now_ms

/-- One step; after a fault nothing more happens. -/
def step (env : StopEnv W κ) (s : IoStop W T κ) (a : StopAct W T) : IoStop W T κ :=
  if s.sched.fault.isSome then s
  else if ∃ q ∈ a.caller, (s.calls q).isSome then s
  else s.act env a

end IoStop

end Coroutine
