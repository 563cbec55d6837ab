import Coroutine.Spec.HookIo

/-!
# Hooked `connect` (`connect_with_timeout` of `hook.cc`)

One call of `connect_with_timeout` among the other threads of its `IOManager`; its steps are cut as
those of `do_io` are. `Connection` is the kernel's side: how far the connection is that `connect_f`
has started, until the socket is closed. Whether `connect_f` and `getsockopt` succeed is up to the
environment. Another thread that is in the hooked `close` of the descriptor calls `cancelAll`, and
`close_f` after it. Beside the state stands whether the kernel has completed the connection
(`completed`).
-/

namespace Coroutine

def EINPROGRESS : CInt := 115

/-- The socket under the number `fd`; the error of a failed connection is not 0. -/
inductive Connection where
  | idle
  | connecting
  | connected
  | failed (error : CInt)
  | closed
  /-- `fd` is the number of another socket -/
  | reused
  deriving DecidableEq

namespace Connection

/-- The kernel has not decided about the connection yet. -/
def pending : Connection → Bool
  | idle | connecting => true
  | connected | failed _ | closed | reused => false

/-- What `getsockopt` stores for `SO_ERROR`, unless it fails: 0 also while the socket is connecting.
Where it succeeds on another socket, `error` is what that socket has. -/
def soError (conn : Connection) (ok : Bool) (error : CInt) : Option CInt :=
  if !ok then none
  else
    match conn with
    | idle | connecting | connected => some 0
    | failed error => some error
    | closed => none
    | reused => some error

end Connection

/-- A call of `connect_with_timeout`: `t_hook_enable`, what `FdMgr::get(fd)` returns, the arguments,
the calling fiber, the `timer_info` it makes, and the function it gives to its timer. -/
structure ConnectCall where
  hook_enable : Bool
  ctx : Option FdCtx
  fd : Int32
  timeout_ms : UInt64
  caller : Caller
  tinfo : ℕ
  cb : Callback

/-- How often the calling fiber has been handed to a scheduler. -/
def ConnectCall.wakes {κ : Type} (call : ConnectCall) (io : IOManager κ) : ℕ :=
  (io.tasks.map (·.2)).count (.fiber call.caller.fiber)

/-- Where `connect_with_timeout` stands. -/
inductive ConnectPc where
  | enter
  /-- before the call of `connect_f` whose result it returns -/
  | plain
  /-- before the call of `connect_f` on a socket with hooked I/O -/
  | connect
  /-- before `addConditionTimer` -/
  | arm
  /-- in `addConditionTimer`, with the clock that the constructor of the timer has read -/
  | insert (now : UInt64)
  /-- before `addEvent` -/
  | add
  /-- after `addEvent` has failed -/
  | failed
  | yielding
  | suspended
  | resumed
  /-- before the test of `tinfo->cancelled` -/
  | check
  | getsockopt
  | returned (n : ℤ) (errno : CInt)
  deriving DecidableEq

namespace ConnectPc

/-- The call has returned. -/
def done : ConnectPc → Bool
  | returned _ _ => true
  | _ => false

/-- It has not been woken yet. -/
def asleep : ConnectPc → Bool
  | connect | arm | insert _ | add | yielding | suspended => true
  | _ => false

/-- No timer has been added yet. -/
def unarmed : ConnectPc → Bool
  | enter | plain | connect | arm | insert _ => true
  | _ => false

/-- The timer has been cancelled, if there was one. -/
def disarmed : ConnectPc → Bool
  | check | getsockopt | returned _ _ => true
  | _ => false

end ConnectPc

/-- A call of `connect_with_timeout`, the `IOManager` and the kernel. -/
structure HookConnect (κ : Type) where
  timers : TimerManager
  io : IOManager κ
  /-- the clock -/
  time : UInt64
  conn : Connection
  completed : Bool
  pc : ConnectPc
  timer : Option ℕ
  /-- `tinfo->cancelled` -/
  cancelled : CInt
  /-- the callback of the timer, once it is extracted -/
  callback : Option CbPc
  /-- how many of the fiber's wake-ups it has used -/
  taken : ℕ

/-- A step of `connect_with_timeout`, where the system call it makes succeeds or not, with `errno` as
given; of the extracted callback; the write-locked section of `listExpiredCb` on a thread that has
read the clock `now`; what other code does with timers and with events; the end of the connection
attempt, with its error; the end of the socket, and of the number `fd` being free; a change of the
clock. -/
inductive ConnectAct where
  | connect (ok : Bool) (errno : CInt)
  | callback
  | listExpired (now : UInt64) (probe : ℕ)
  | timerOp (op : TimerOp)
  | eventOp (op : EventOp)
  | finish (error : CInt)
  | close
  | reuse
  | tick (now : UInt64)

namespace HookConnect

variable {κ : Type}

/-- Before the call: nothing has been done with the `IOManager` yet. -/
def init (now_ms : UInt64) (k : κ) : HookConnect κ :=
  { timers := TimerManager.init now_ms, io := IOManager.init k, time := now_ms, conn := .idle
    completed := false, pc := .enter, timer := none, cancelled := 0, callback := none, taken := 0 }

variable (addr : ℕ ↪ ℕ) (ctl : EpollCtl κ) (call : ConnectCall)

/-- The kernel has decided about the connection. -/
def ends (s : HookConnect κ) (error : CInt) : HookConnect κ :=
  if error = 0 then { s with conn := .connected, completed := true }
  else { s with conn := .failed error }

/-- `connect_f` and its result. -/
def connect_f (s : HookConnect κ) (ok : Bool) (errno : CInt) : ℤ × HookConnect κ :=
  if ok then (0, s.ends 0)
  else if errno = EINPROGRESS then (-1, { s with conn := .connecting })
  else (-1, s)

/-- `if(timer) timer->cancel()`. -/
def cancelTimer (s : HookConnect κ) : Except Fault (HookConnect κ) :=
  match s.timer with
  | none => .ok s
  | some timer => (s.timers.cancel addr timer).map fun (_, m) => { s with timers := m }

/-- The next step of `connect_with_timeout`. -/
def connect_with_timeout (s : HookConnect κ) (ok : Bool) (errno : CInt) :
    Except Fault (HookConnect κ) :=
  match s.pc with
  | .enter =>
    let s := { s with taken := call.wakes s.io }
    if !call.hook_enable then .ok { s with pc := .plain }
    else
      match call.ctx with
      | none => .ok { s with pc := .returned (-1) EBADF }
      | some ctx =>
        if ctx.isClose then .ok { s with pc := .returned (-1) EBADF }
        else if !ctx.isSocket then .ok { s with pc := .plain }
        else if ctx.getUserNonblock then .ok { s with pc := .plain }
        else .ok { s with pc := .connect }
  | .plain =>
    let (n, s) := s.connect_f ok errno
    .ok { s with pc := .returned n errno }
  | .connect =>
    let (n, s) := s.connect_f ok errno
    if n = 0 then .ok { s with pc := .returned 0 errno }
    else if n ≠ -1 ∨ errno ≠ EINPROGRESS then .ok { s with pc := .returned n errno }
    else .ok { s with pc := if call.timeout_ms ≠ ~~~ 0 then .arm else .add }
  | .arm => .ok { s with pc := .insert s.time }
  | .insert now =>
    let (timer, m, _) :=
      s.timers.addConditionTimer addr now call.timeout_ms (some call.cb) call.tinfo false
    .ok { s with timers := m, timer := some timer, pc := .add }
  | .add =>
    (s.io.addEvent ctl call.caller call.fd .WRITE none).map fun (rt, io) =>
      { s with io := io, pc := if rt = 0 then .yielding else .failed }
  -- the error is logged, and the call goes on
  | .failed => (s.cancelTimer addr).map fun s => { s with pc := .getsockopt }
  | .yielding => .ok { s with pc := .suspended }
  | .suspended =>
    if s.taken < call.wakes s.io then .ok { s with taken := s.taken + 1, pc := .resumed } else .ok s
  | .resumed => (s.cancelTimer addr).map fun s => { s with pc := .check }
  | .check =>
    if s.cancelled ≠ 0 then .ok { s with pc := .returned (-1) s.cancelled }
    else .ok { s with pc := .getsockopt }
  | .getsockopt =>
    match s.conn.soError ok errno with
    | none => .ok { s with pc := .returned (-1) errno }
    | some error =>
      if error = 0 then .ok { s with pc := .returned 0 errno }
      else .ok { s with pc := .returned (-1) error }
  | .returned _ _ => .ok s

/-- The `timer_info` has an owner: the call, or the callback once it has locked it. -/
def alive (s : HookConnect κ) : Bool := !s.pc.done || s.callback.any CbPc.holds

/-- The next step of the callback of the timer: `OnTimer` and the function given to it. -/
def onTimer (s : HookConnect κ) : Except Fault (HookConnect κ) :=
  match s.callback with
  | none | some .finished => .ok s
  | some .start => .ok { s with callback := some (if s.alive then .locked else .finished) }
  | some .locked => .ok { s with callback := some (if s.cancelled ≠ 0 then .finished else .tested) }
  | some .tested => .ok { s with callback := some .flagged, cancelled := ETIMEDOUT }
  | some .flagged =>
    (s.io.cancelEvent ctl call.fd .WRITE).map fun (_, io) =>
      { s with callback := some .finished, io := io }

/-- The extraction, and the callback of the call if it is among those it hands out. -/
def listExpired (s : HookConnect κ) (now : UInt64) (probe : ℕ) : Except Fault (HookConnect κ) :=
  (s.timers.listExpired addr now probe).map fun (cbs, m) =>
    { s with
      timers := m
      callback :=
        if s.timer.any fun t => ((s.timers.expired addr now probe).zip cbs).contains
            (t, some (.onTimer call.tinfo (some call.cb))) then some .start
        else s.callback }

/-- One step. Nobody else has the handle of the call's timer; the socket of the call is the one that
`fd` names when `connect_f` is called; a clock that was read is not ahead of the clock, which does not
go back. -/
def stepOk (s : HookConnect κ) : ConnectAct → Except Fault (HookConnect κ)
  | .connect ok errno => s.connect_with_timeout addr ctl call ok errno
  | .callback => s.onTimer ctl call
  | .listExpired now probe => if now ≤ s.time then s.listExpired addr call now probe else .ok s
  | .timerOp op =>
    if op.handle.any (s.timer = some ·) then .ok s
    else (op.call addr s.timers).map fun m => { s with timers := m }
  | .eventOp op => (op.call ctl s.io).map fun io => { s with io := io }
  | .finish error => if s.conn = .connecting then .ok (s.ends error) else .ok s
  | .close => if s.conn ≠ .idle ∧ s.conn ≠ .reused then .ok { s with conn := .closed } else .ok s
  | .reuse => if s.conn = .closed then .ok { s with conn := .reused } else .ok s
  | .tick now => if s.time ≤ now then .ok { s with time := now } else .ok s

/-- One step; after a fault nothing more happens. -/
def step (s : Except Fault (HookConnect κ)) (a : ConnectAct) : Except Fault (HookConnect κ) :=
  s.bind fun s => s.stepOk addr ctl call a

end HookConnect

end Coroutine
