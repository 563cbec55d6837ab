import Coroutine.Spec.HookIo

/-!
# Durations in the hooks (`hook.cc`)

What `sleep`, `usleep` and `nanosleep` make of their argument, and `setsockopt` of a timeout:
milliseconds of type `uint64_t`, through the types of the source. `long` and `time_t` have 64 bits,
and the arithmetic of a `long` must not overflow. `FdCtx` is not in the source: `FdTimeoutOps` is
what the hook calls of it, `Lawful` what `do_io` relies on.
-/

namespace Coroutine

/-- A valid `struct timespec`. -/
structure Timespec where
  tv_sec : ℕ
  tv_nsec : ℕ
  sec_lt : tv_sec < 2 ^ 63
  nsec_lt : tv_nsec < 1000000000

/-- A valid `struct timeval`. -/
structure Timeval where
  tv_sec : ℕ
  tv_usec : ℕ
  sec_lt : tv_sec < 2 ^ 63
  usec_lt : tv_usec < 1000000

/-- How a call of a sleeping function waits: in the original function, or until a timer of `ms`
milliseconds hands its fiber to the scheduler, whereupon it returns 0. -/
inductive SleepWait where
  | origin
  | addTimer (ms : UInt64)
  deriving DecidableEq

/-- `tv_sec * 1000 + ms`, of type `long`. -/
def longMillis (tv_sec ms : ℕ) : Except Fault ℕ :=
  if tv_sec * 1000 < 2 ^ 63 ∧ tv_sec * 1000 + ms < 2 ^ 63 then .ok (tv_sec * 1000 + ms)
  else .error .undefined

/-- An `int` as a `uint64_t`. -/
def CInt.toUInt64 (n : CInt) : UInt64 := UInt64.ofBitVec (n.signExtend 64)

/-- `sleep`, whose product is an `unsigned int`. -/
def sleep (hook_enable : Bool) (seconds : UInt32) : SleepWait :=
  if !hook_enable then .origin else .addTimer (seconds * 1000).toUInt64

/-- `usleep`. -/
def usleep (hook_enable : Bool) (usec : UInt32) : SleepWait :=
  if !hook_enable then .origin else .addTimer (usec / 1000).toUInt64

/-- `nanosleep`, whose `timeout_ms` is an `int`. -/
def nanosleep (hook_enable : Bool) (req : Timespec) : Except Fault SleepWait :=
  if !hook_enable then .ok .origin
  else
    (longMillis req.tv_sec (req.tv_nsec / 1000 / 1000)).map fun ms =>
      let timeout_ms : CInt := BitVec.ofNat 32 ms
      .addTimer timeout_ms.toUInt64

def SOL_SOCKET : CInt := 1
def SO_RCVTIMEO : CInt := 20
def SO_SNDTIMEO : CInt := 21

/-- What the hook of `setsockopt`, and `do_io`, call of `FdCtx`. -/
structure FdTimeoutOps (C : Type) where
  setTimeout : C → CInt → UInt64 → C
  getTimeout : C → CInt → UInt64

/-- **`FdCtx` returns the timeout stored last.** -/
structure FdTimeoutOps.Lawful {C : Type} (ops : FdTimeoutOps C) : Prop where
  getTimeout_set : ∀ ctx optname ms, ops.getTimeout (ops.setTimeout ctx optname ms) optname = ms

/-- `setsockopt` of a `timeval`, before it calls the original function with the same arguments: what it
leaves of the context that `FdMgr::get` returns. -/
def setsockopt {C : Type} (ops : FdTimeoutOps C) (hook_enable : Bool) (level optname : CInt)
    (v : Timeval) (ctx : Option C) : Except Fault (Option C) :=
  if !hook_enable then .ok ctx
  else if level = SOL_SOCKET then
    if optname = SO_RCVTIMEO ∨ optname = SO_SNDTIMEO then
      match ctx with
      | none => .ok none
      | some c =>
        (longMillis v.tv_sec (v.tv_usec / 1000)).map fun ms =>
          some (ops.setTimeout c optname (UInt64.ofNat ms))
    else .ok ctx
  else .ok ctx

/-- The timeout that `do_io` passes to `addConditionTimer` when it has to wait, if it adds a timer. -/
def IoCall.waitTimeout (call : IoCall) : Option UInt64 :=
  if call.timeout ≠ ~~~ 0 then some call.timeout else none

end Coroutine
