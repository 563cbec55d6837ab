import Coroutine.Spec.Base

/-!
# Events on file descriptors (`iomanager.h`, `iomanager.cc`)

`FdContext` objects live in a heap indexed by identity, and `m_fdContexts` holds their
pointers. The kernel is a parameter: `ctl` answers each `epoll_ctl` request from the
kernel's own state `κ`, so that a result may depend on everything asked before. Each
function below is one section under the mutex of the `FdContext` it works on, after the
lookup under `IOManager::m_mutex`; of `idle` it is the body of the event loop
(`dispatch`). `tasks` records what is handed to `Scheduler::scheduler`, with the
scheduler it is handed to.
-/

namespace Coroutine

/-- `IOManager::Event`. -/
inductive Event where
  | NONE
  | READ
  | WRITE
  deriving DecidableEq, Repr

/-- The value of an event. -/
def Event.bits : Event → BitVec 32
  | NONE => 0x0
  | READ => 0x1
  | WRITE => 0x4

def EPOLLIN : BitVec 32 := 0x1
def EPOLLOUT : BitVec 32 := 0x4
def EPOLLERR : BitVec 32 := 0x8
def EPOLLHUP : BitVec 32 := 0x10
def EPOLLET : BitVec 32 := 0x80000000

/-- `EPOLL_CTL_ADD`, `EPOLL_CTL_MOD`, `EPOLL_CTL_DEL`. -/
inductive CtlOp where
  | ADD
  | MOD
  | DEL
  deriving DecidableEq, Repr

/-- `epoll_ctl` on a kernel state: the result and the new state. -/
abbrev EpollCtl (κ : Type) := κ → CtlOp → Int32 → BitVec 32 → ℤ × κ

/-- `IOManager::FdContext::EventContext`; schedulers are named by numbers. -/
structure EventContext where
  scheduler : Option ℕ := none
  fiber : Option FiberPtr := none
  cb : Option Callback := none
  deriving DecidableEq, Repr

/-- `IOManager::FdContext`. -/
structure FdContext where
  read : EventContext := {}
  write : EventContext := {}
  fd : Int32 := 0
  m_events : BitVec 32 := 0
  deriving DecidableEq, Repr

namespace FdContext

/-- `getContext`; for any other event its assertion fails. -/
def getContext (fd_ctx : FdContext) : Event → Option EventContext
  | .READ => some fd_ctx.read
  | .WRITE => some fd_ctx.write
  | .NONE => none

/-- Write through the reference `getContext` returns. -/
def setContext (fd_ctx : FdContext) (event : Event) (ctx : EventContext) : FdContext :=
  match event with
  | .READ => { fd_ctx with read := ctx }
  | .WRITE => { fd_ctx with write := ctx }
  | .NONE => fd_ctx

/-- `triggerEvent`: the new context, and what is handed to which scheduler. -/
def triggerEvent (fd_ctx : FdContext) (event : Event) :
    Except Fault (FdContext × ℕ × Option FiberOrcb) :=
  if fd_ctx.m_events &&& event.bits = 0 then .error .assertion
  else
    let fd_ctx' := { fd_ctx with m_events := fd_ctx.m_events &&& ~~~ event.bits }
    match fd_ctx'.getContext event with
    | none => .error .assertion
    | some ctx =>
      match ctx.scheduler with
      | none => .error .undefined
      | some sched =>
        match ctx.cb with
        | some f =>
          .ok (fd_ctx'.setContext event { ctx with cb := none, scheduler := none }, sched,
            some (.cb f))
        | none =>
          .ok (fd_ctx'.setContext event { ctx with fiber := none, scheduler := none }, sched,
            ctx.fiber.map .fiber)

end FdContext

/-- The part of an `IOManager` that handles events, and the kernel's state. -/
structure IOManager (κ : Type) where
  kernel : κ
  fdctx : ℕ → FdContext
  nctx : ℕ
  m_fdContexts : List ℕ
  m_pendingEventCount : ℕ
  tasks : List (ℕ × FiberOrcb)

/-- The thread that calls `addEvent`: `Scheduler::GetThis()`, `Fiber::GetThis()`, and
whether that fiber is in state `EXEC`. -/
structure Caller where
  scheduler : Option ℕ
  fiber : FiberPtr
  exec : Bool

namespace IOManager

variable {κ : Type} (ctl : EpollCtl κ)

/-- Write to an `FdContext`. -/
def set (s : IOManager κ) (p : ℕ) (fd_ctx : FdContext) : IOManager κ :=
  { s with fdctx := fun i => if i = p then fd_ctx else s.fdctx i }

/-! ## The table -/

/-- `m_fdContexts.size()`. -/
def size (s : IOManager κ) : ℕ := s.m_fdContexts.length

/-- `contextResize`: a shorter vector drops pointers, a longer one gets new contexts. -/
def contextResize (s : IOManager κ) (size : ℕ) : IOManager κ :=
  let new := size - s.size
  { s with
    m_fdContexts := s.m_fdContexts.take size ++ (List.range new).map (s.nctx + ·)
    fdctx := fun p =>
      if s.nctx ≤ p ∧ p < s.nctx + new then { fd := Int32.ofNat (s.size + (p - s.nctx)) }
      else s.fdctx p
    nctx := s.nctx + new }

/-- An `IOManager` as constructed. -/
def init (k : κ) : IOManager κ :=
  contextResize { kernel := k, fdctx := fun _ => {}, nctx := 0, m_fdContexts := [],
                  m_pendingEventCount := 0, tasks := [] } 32

/-- The test `(int)m_fdContexts.size() > fd`. -/
def inTable (s : IOManager κ) (fd : Int32) : Prop := fd < Int32.ofNat s.size

instance (s : IOManager κ) (fd : Int32) : Decidable (s.inTable fd) :=
  inferInstanceAs (Decidable (_ < _))

/-- `m_fdContexts[fd]`, undefined outside the vector. -/
def slot (s : IOManager κ) (fd : Int32) : Except Fault ℕ :=
  if fd < 0 then .error .undefined
  else
    match s.m_fdContexts[fd.toInt.toNat]? with
    | none => .error .undefined
    | some p => .ok p

/-- `(size_t)(fd * 1.5)` for `0 ≤ fd`. -/
def growSize (fd : Int32) : ℕ := 3 * fd.toInt.toNat / 2

/-- The write-locked section of `addEvent`: `contextResize(fd * 1.5)` and the lookup.
A negative `fd` has no such size. -/
def grow (s : IOManager κ) (fd : Int32) : Except Fault (ℕ × IOManager κ) :=
  if fd < 0 then .error .undefined
  else (s.contextResize (growSize fd)).slot fd |>.map (·, s.contextResize (growSize fd))

/-- The lookup of `addEvent` with nothing between its two sections. -/
def lookup (s : IOManager κ) (fd : Int32) : Except Fault (ℕ × IOManager κ) :=
  if s.inTable fd then (s.slot fd).map (·, s) else s.grow fd

/-! ## Registering -/

/-- What `addEvent` asks of the kernel. -/
def addRequest (fd_ctx : FdContext) (event : Event) : CtlOp × BitVec 32 :=
  (if fd_ctx.m_events ≠ 0 then .MOD else .ADD, EPOLLET ||| fd_ctx.m_events ||| event.bits)

/-- The section of `addEvent` under the mutex of `fd_ctx = p`. -/
def addEventAt (s : IOManager κ) (caller : Caller) (p : ℕ) (fd : Int32) (event : Event)
    (cb : Option Callback) : Except Fault (ℤ × IOManager κ) :=
  let fd_ctx := s.fdctx p
  if fd_ctx.m_events &&& event.bits ≠ 0 then .error .assertion
  else
    let (op, events) := addRequest fd_ctx event
    let (rt, k) := ctl s.kernel op fd events
    if rt ≠ 0 then .ok (-1, { s with kernel := k })
    else
      match fd_ctx.getContext event with
      | none => .error .assertion
      | some event_ctx =>
        if event_ctx.scheduler.isSome ∨ event_ctx.fiber.isSome ∨ event_ctx.cb.isSome then
          .error .assertion
        else
          let event_ctx := { event_ctx with scheduler := caller.scheduler }
          let done (event_ctx : EventContext) : IOManager κ :=
            { s.set p ({ fd_ctx with m_events := fd_ctx.m_events ||| event.bits }.setContext event
                event_ctx) with
              kernel := k, m_pendingEventCount := s.m_pendingEventCount + 1 }
          match cb with
          | some f => .ok (0, done { event_ctx with cb := some f })
          | none =>
            if caller.exec then .ok (0, done { event_ctx with fiber := some caller.fiber })
            else .error .assertion

/-- `addEvent`. -/
def addEvent (s : IOManager κ) (caller : Caller) (fd : Int32) (event : Event)
    (cb : Option Callback) : Except Fault (ℤ × IOManager κ) :=
  match s.lookup fd with
  | .error e => .error e
  | .ok (p, s') => s'.addEventAt ctl caller p fd event cb

/-! ## Consuming -/

/-- What an operation that takes the events of `mask` away asks of the kernel. -/
def dropRequest (fd_ctx : FdContext) (mask : BitVec 32) : CtlOp × BitVec 32 :=
  let left_events := fd_ctx.m_events &&& ~~~ mask
  (if left_events ≠ 0 then .MOD else .DEL, EPOLLET ||| left_events)

/-- `triggerEvent` on `fd_ctx = p` and the decrement that goes with it. -/
def consume (s : IOManager κ) (p : ℕ) (event : Event) : Except Fault (IOManager κ) :=
  match (s.fdctx p).triggerEvent event with
  | .error e => .error e
  | .ok (fd_ctx, sched, task) =>
    .ok { s.set p fd_ctx with
          tasks := s.tasks ++ (task.map (sched, ·)).toList
          m_pendingEventCount := s.m_pendingEventCount - 1 }

/-- The section of `delEvent` under the mutex of `fd_ctx = p`. -/
def delEventAt (s : IOManager κ) (p : ℕ) (fd : Int32) (event : Event) :
    Except Fault (Bool × IOManager κ) :=
  let fd_ctx := s.fdctx p
  if fd_ctx.m_events &&& event.bits = 0 then .ok (false, s)
  else
    let (op, events) := dropRequest fd_ctx event.bits
    let (rt, k) := ctl s.kernel op fd events
    if rt ≠ 0 then .ok (false, { s with kernel := k })
    else
      match fd_ctx.getContext event with
      | none => .error .assertion
      | some _ =>
        .ok (true,
          { s.set p ({ fd_ctx with m_events := fd_ctx.m_events &&& ~~~ event.bits }.setContext
              event {}) with
            kernel := k, m_pendingEventCount := s.m_pendingEventCount - 1 })

/-- The section of `cancelEvent` under the mutex of `fd_ctx = p`. -/
def cancelEventAt (s : IOManager κ) (p : ℕ) (fd : Int32) (event : Event) :
    Except Fault (Bool × IOManager κ) :=
  let fd_ctx := s.fdctx p
  if fd_ctx.m_events &&& event.bits = 0 then .ok (false, s)
  else
    let (op, events) := dropRequest fd_ctx event.bits
    let (rt, k) := ctl s.kernel op fd events
    if rt ≠ 0 then .ok (false, { s with kernel := k })
    else (consume { s with kernel := k } p event).map (true, ·)

/-- Consume `event` when `cond` says so. -/
def consumeIf (cond : Bool) (s : IOManager κ) (p : ℕ) (event : Event) : Except Fault (IOManager κ) :=
  if cond then s.consume p event else .ok s

/-- The section of `cancelAll` under the mutex of `fd_ctx = p`. -/
def cancelAllAt (s : IOManager κ) (p : ℕ) (fd : Int32) : Except Fault (Bool × IOManager κ) :=
  if (s.fdctx p).m_events = 0 then .ok (false, s)
  else
    let (rt, k) := ctl s.kernel .DEL fd 0
    if rt ≠ 0 then .ok (false, { s with kernel := k })
    else
      let s₀ := { s with kernel := k }
      match consumeIf ((s₀.fdctx p).m_events &&& Event.READ.bits ≠ 0) s₀ p .READ with
      | .error e => .error e
      | .ok s₁ =>
        match consumeIf ((s₁.fdctx p).m_events &&& Event.WRITE.bits ≠ 0) s₁ p .WRITE with
        | .error e => .error e
        | .ok s₂ => if (s₂.fdctx p).m_events = 0 then .ok (true, s₂) else .error .assertion

/-- An operation that looks `fd` up in the table and gives up when it is not there. -/
def onTable (s : IOManager κ) (fd : Int32)
    (body : ℕ → Except Fault (Bool × IOManager κ)) : Except Fault (Bool × IOManager κ) :=
  if s.inTable fd then
    match s.slot fd with
    | .error e => .error e
    | .ok p => body p
  else .ok (false, s)

/-- `delEvent`. -/
def delEvent (s : IOManager κ) (fd : Int32) (event : Event) : Except Fault (Bool × IOManager κ) :=
  s.onTable fd fun p => s.delEventAt ctl p fd event

/-- `cancelEvent`. -/
def cancelEvent (s : IOManager κ) (fd : Int32) (event : Event) :
    Except Fault (Bool × IOManager κ) :=
  s.onTable fd fun p => s.cancelEventAt ctl p fd event

/-- `cancelAll`. -/
def cancelAll (s : IOManager κ) (fd : Int32) : Except Fault (Bool × IOManager κ) :=
  s.onTable fd fun p => s.cancelAllAt ctl p fd

/-- `real_events` of the event loop, from the mask `epoll_wait` reported. -/
def realEvents (events : BitVec 32) : BitVec 32 :=
  let events :=
    if events &&& (EPOLLERR ||| EPOLLHUP) ≠ 0 then events ||| (EPOLLIN ||| EPOLLOUT) else events
  (if events &&& EPOLLIN ≠ 0 then Event.READ.bits else 0) |||
    (if events &&& EPOLLOUT ≠ 0 then Event.WRITE.bits else 0)

/-- The body of the event loop of `idle` for `event.data.ptr = p` and
`event.events = events`: the events it calls `triggerEvent` for, and the state. -/
def dispatch (s : IOManager κ) (p : ℕ) (events : BitVec 32) :
    Except Fault (List Event × IOManager κ) :=
  let fd_ctx := s.fdctx p
  let real_events := realEvents events
  if fd_ctx.m_events &&& real_events = 0 then .ok ([], s)
  else
    let (op, left) := dropRequest fd_ctx real_events
    let (rt2, k) := ctl s.kernel op fd_ctx.fd left
    if rt2 ≠ 0 then .ok ([], { s with kernel := k })
    else
      let read := real_events &&& Event.READ.bits ≠ 0
      let write := real_events &&& Event.WRITE.bits ≠ 0
      match consumeIf read { s with kernel := k } p .READ with
      | .error e => .error e
      | .ok s₁ =>
        match consumeIf write s₁ p .WRITE with
        | .error e => .error e
        | .ok s₂ =>
          .ok ((if read then [.READ] else []) ++ (if write then [.WRITE] else []), s₂)

end IOManager

/-- A call, or a turn of the event loop. -/
inductive EventOp where
  | addEvent (caller : Caller) (fd : Int32) (event : Event) (cb : Option Callback)
  | delEvent (fd : Int32) (event : Event)
  | cancelEvent (fd : Int32) (event : Event)
  | cancelAll (fd : Int32)
  | dispatch (p : ℕ) (events : BitVec 32)

/-- One call or turn, without its result. -/
def EventOp.call {κ : Type} (ctl : EpollCtl κ) (s : IOManager κ) :
    EventOp → Except Fault (IOManager κ)
  | .addEvent caller fd event cb => (s.addEvent ctl caller fd event cb).map (·.2)
  | .delEvent fd event => (s.delEvent ctl fd event).map (·.2)
  | .cancelEvent fd event => (s.cancelEvent ctl fd event).map (·.2)
  | .cancelAll fd => (s.cancelAll ctl fd).map (·.2)
  | .dispatch p events => (s.dispatch ctl p events).map (·.2)

end Coroutine
