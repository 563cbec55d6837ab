import Coroutine.Spec.Event
import Coroutine.Spec.HookFlags
import Coroutine.Spec.TimerLog

/-!
# Hooked I/O (`do_io` of `hook.cc`)

One call of `do_io` among the other threads of its `IOManager`. `FdCtx` and `Fiber::yield` are
not in the source: what the call reads of its context is part of `IoCall`, and a fiber that
yields is on hold until it has been handed to its scheduler. What `fun` returns, and the `errno`
that a failed `addEvent` leaves, are up to the environment.

A step of `do_io`, or of the callback of one of its timers, goes up to the next place where
another thread may see the difference. All rounds of a call share one `timer_info`; `callbacks`
says how far the callback of each timer is once `listExpiredCb` has extracted it. Beside the
state stand the clock that the timer of the round was made with (`armed`), and whether a callback
has reached into a round that is not its own (`crossed`).
-/

namespace Coroutine

def EINTR : CInt := 4
def EBADF : CInt := 9
def EAGAIN : CInt := 11
def ETIMEDOUT : CInt := 110

/-- What `do_io` reads of an `FdCtx`. -/
structure FdCtx where
  isClose : Bool
  isSocket : Bool
  getUserNonblock : Bool
  getTimeout : UInt64

/-- A call of `do_io`: `t_hook_enable`, what `FdMgr::get(fd)` returns, the arguments, the calling
fiber, the `timer_info` it makes, and the function it gives to its timers. -/
structure IoCall where
  hook_enable : Bool
  ctx : Option FdCtx
  fd : Int32
  event : Event
  caller : Caller
  tinfo : ℕ
  cb : Callback

namespace IoCall

/-- The local `to`; without a context it is not read. -/
def timeout (call : IoCall) : UInt64 :=
  match call.ctx with
  | some ctx => ctx.getTimeout
  | none => ~~~ 0

/-- How often the calling fiber has been handed to a scheduler. -/
def wakes {κ : Type} (call : IoCall) (io : IOManager κ) : ℕ :=
  (io.tasks.map (·.2)).count (.fiber call.caller.fiber)

end IoCall

/-- Where `do_io` stands. -/
inductive IoPc where
  | enter
  /-- before the call of `fun` whose result it returns -/
  | plain
  /-- at `retry` -/
  | call
  /-- before `addConditionTimer` -/
  | arm
  /-- in `addConditionTimer`, with the clock that the constructor of the timer has read -/
  | insert (now : UInt64)
  /-- before `addEvent` -/
  | add
  /-- after `addEvent` has failed -/
  | failed
  | yielding
  | suspended
  | resumed
  /-- before the test of `tinfo->cancelled` -/
  | check
  | returned (n : ℤ) (errno : CInt)
  deriving DecidableEq

namespace IoPc

/-- The call has returned. -/
def done : IoPc → Bool
  | returned _ _ => true
  | _ => false

/-- It has registered its event, and waits for it. -/
def waits : IoPc → Bool
  | yielding | suspended => true
  | _ => false

/-- No timer has been added in this round yet. -/
def unarmed : IoPc → Bool
  | enter | plain | call | arm | insert _ => true
  | _ => false

end IoPc

/-- Where an extracted callback stands: before `weak_cond.lock()`, before the test of the flag,
before setting it, before `cancelEvent`, or at its end. -/
inductive CbPc where
  | start
  | locked
  | tested
  | flagged
  | finished
  deriving DecidableEq

/-- It holds the `timer_info`. -/
def CbPc.holds : CbPc → Bool
  | locked | tested | flagged => true
  | start | finished => false

/-- A call of `do_io`, the `IOManager` and the kernel. -/
structure HookIo (κ : Type) where
  timers : TimerManager
  io : IOManager κ
  /-- the clock -/
  time : UInt64
  /-- `fd` is ready for the event -/
  ready : Bool
  pc : IoPc
  timer : Option ℕ
  /-- `tinfo->cancelled` -/
  cancelled : CInt
  /-- the timers the call has added -/
  mine : List ℕ
  callbacks : ℕ → Option CbPc
  /-- how many of the fiber's wake-ups it has used -/
  taken : ℕ
  armed : Option UInt64
  crossed : Bool

/-- The timer a call is made on. -/
def TimerOp.handle : TimerOp → Option ℕ
  | .cancel t | .refresh _ t | .reset _ _ _ t => some t
  | .addTimer .. | .addConditionTimer .. | .getNextTimer _ => none

/-- The call registers `event` of `fd`. -/
def EventOp.Adds (fd : Int32) (event : Event) : EventOp → Prop
  | .addEvent _ fd' event' _ => fd' = fd ∧ event' = event
  | _ => False

instance (fd : Int32) (event : Event) : DecidablePred (EventOp.Adds fd event)
  | .addEvent _ _ _ _ => inferInstanceAs (Decidable (_ ∧ _))
  | .delEvent _ _ | .cancelEvent _ _ | .cancelAll _ | .dispatch _ _ =>
    inferInstanceAs (Decidable False)

/-- A step of `do_io`, where `fun` returns `n` and `errno` is as given; of an extracted callback;
the write-locked section of `listExpiredCb` on a thread that has read the clock `now`; what other
code does with timers and with events; a change of the descriptor, or of the clock. -/
inductive HookAct where
  | io (n : ℤ) (errno : CInt)
  | callback (t : ℕ)
  | listExpired (now : UInt64) (probe : ℕ)
  | timerOp (op : TimerOp)
  | eventOp (op : EventOp)
  | ready (b : Bool)
  | tick (now : UInt64)

namespace HookIo

variable {κ : Type}

/-- Before the call: nothing has been done with the `IOManager` yet. -/
def init (now_ms : UInt64) (k : κ) : HookIo κ :=
  { timers := TimerManager.init now_ms, io := IOManager.init k, time := now_ms, ready := false
    pc := .enter, timer := none, cancelled := 0, mine := [], callbacks := fun _ => none, taken := 0
    armed := none, crossed := false }

variable (addr : ℕ ↪ ℕ) (ctl : EpollCtl κ) (call : IoCall)

/-- `if(timer) timer->cancel()`. -/
def cancelTimer (s : HookIo κ) : Except Fault (HookIo κ) :=
  match s.timer with
  | none => .ok s
  | some timer => (s.timers.cancel addr timer).map fun (_, m) => { s with timers := m }

/-- The next step of `do_io`. -/
def doIo (s : HookIo κ) (n : ℤ) (errno : CInt) : Except Fault (HookIo κ) :=
  match s.pc with
  | .enter =>
    let s := { s with taken := call.wakes s.io }
    if !call.hook_enable then .ok { s with pc := .plain }
    else
      match call.ctx with
      | none => .ok { s with pc := .plain }
      | some ctx =>
        if ctx.isClose then .ok { s with pc := .returned (-1) EBADF }
        else if !ctx.isSocket || ctx.getUserNonblock then .ok { s with pc := .plain }
        else .ok { s with pc := .call }
  | .plain => .ok { s with pc := .returned n errno }
  | .call =>
    if n = -1 ∧ errno = EINTR then .ok s
    else if n = -1 ∧ errno = EAGAIN then
      .ok { s with pc := if call.timeout ≠ ~~~ 0 then .arm else .add }
    else .ok { s with pc := .returned n errno }
  | .arm => .ok { s with armed := some s.time, pc := .insert s.time }
  | .insert now =>
    let (timer, m, _) :=
      s.timers.addConditionTimer addr now call.timeout (some call.cb) call.tinfo false
    .ok { s with timers := m, timer := some timer, mine := timer :: s.mine, pc := .add }
  | .add =>
    (s.io.addEvent ctl call.caller call.fd call.event none).map fun (rt, io) =>
      { s with io := io, pc := if rt ≠ 0 then .failed else .yielding }
  | .failed => (s.cancelTimer addr).map fun s => { s with pc := .returned (-1) errno }
  | .yielding => .ok { s with pc := .suspended }
  | .suspended =>
    if s.taken < call.wakes s.io then .ok { s with taken := s.taken + 1, pc := .resumed } else .ok s
  | .resumed => (s.cancelTimer addr).map fun s => { s with pc := .check }
  | .check =>
    if s.cancelled ≠ 0 then .ok { s with pc := .returned (-1) s.cancelled }
    -- `goto retry` leaves the scope of `timer`
    else .ok { s with timer := none, armed := none, pc := .call }
  | .returned _ _ => .ok s

/-- The `timer_info` has an owner: the call, or a callback that has locked it. -/
def alive (s : HookIo κ) : Bool := !s.pc.done || s.mine.any fun t => (s.callbacks t).any CbPc.holds

/-- The call is in a round that timer `t` was not armed in. -/
def foreign (s : HookIo κ) (t : ℕ) : Bool := !s.pc.done && s.timer != some t

/-- Move the callback of timer `t`. -/
def setCallback (s : HookIo κ) (t : ℕ) (pc : CbPc) : HookIo κ :=
  { s with callbacks := fun i => if i = t then some pc else s.callbacks i }

/-- The next step of the callback of timer `t`: `OnTimer` and the function given to it. -/
def onTimer (s : HookIo κ) (t : ℕ) : Except Fault (HookIo κ) :=
  match s.callbacks t with
  | none | some .finished => .ok s
  | some .start => .ok (s.setCallback t (if s.alive then .locked else .finished))
  | some .locked => .ok (s.setCallback t (if s.cancelled ≠ 0 then .finished else .tested))
  | some .tested =>
    .ok { s.setCallback t .flagged with
          cancelled := ETIMEDOUT, crossed := s.crossed || s.foreign t }
  | some .flagged =>
    (s.io.cancelEvent ctl call.fd call.event).map fun (b, io) =>
      { s.setCallback t .finished with io := io, crossed := s.crossed || (b && s.foreign t) }

/-- The extraction, and the callbacks of the call among those it hands out. -/
def listExpired (s : HookIo κ) (now : UInt64) (probe : ℕ) : Except Fault (HookIo κ) :=
  (s.timers.listExpired addr now probe).map fun (cbs, m) =>
    { s with
      timers := m
      callbacks := fun t =>
        if t ∈ s.mine ∧ (t, some (.onTimer call.tinfo (some call.cb))) ∈
            (s.timers.expired addr now probe).zip cbs then some .start
        else s.callbacks t }

/-- One step. Nobody else has the handles of the call's timers, or registers its event while it
is in progress; a clock that was read is not ahead of the clock, which does not go back. -/
def stepOk (s : HookIo κ) : HookAct → Except Fault (HookIo κ)
  | .io n errno => s.doIo addr ctl call n errno
  | .callback t => s.onTimer ctl call t
  | .listExpired now probe => if now ≤ s.time then s.listExpired addr call now probe else .ok s
  | .timerOp op =>
    if op.handle.any (· ∈ s.mine) then .ok s
    else (op.call addr s.timers).map fun m => { s with timers := m }
  | .eventOp op =>
    if op.Adds call.fd call.event ∧ s.pc ≠ .enter then .ok s
    else (op.call ctl s.io).map fun io => { s with io := io }
  | .ready b => .ok { s with ready := b }
  | .tick now => if s.time ≤ now then .ok { s with time := now } else .ok s

/-- One step; after a fault nothing more happens. -/
def step (s : Except Fault (HookIo κ)) (a : HookAct) : Except Fault (HookIo κ) :=
  s.bind fun s => s.stepOk addr ctl call a

end HookIo

end Coroutine
