import Coroutine.Spec.HookIo

/-!
# The system calls of hooked I/O

Beside a call of `do_io` stand the results of the calls of `fun` that it has made, in order, and
whether an `addEvent` of it has failed; neither is in the source.
-/

namespace Coroutine

/-- What becomes of a call of `do_io`. -/
inductive IoMode where
  /-- `fun` is called in its place -/
  | plain
  | closed
  | blocking
  deriving DecidableEq, Repr

/-- The tests before `retry`. -/
def IoCall.mode (call : IoCall) : IoMode :=
  if !call.hook_enable then .plain
  else
    match call.ctx with
    | none => .plain
    | some ctx =>
      if ctx.isClose then .closed
      else if !ctx.isSocket || ctx.getUserNonblock then .plain
      else .blocking

/-- `do_io` is at a call of `fun`. -/
def IoPc.calls : IoPc → Bool
  | plain | call => true
  | _ => false

/-- A call of `do_io` with its history. -/
structure HookCalls (κ : Type) where
  hook : HookIo κ
  results : List (ℤ × CInt)
  refused : Bool

namespace HookCalls

variable {κ : Type}

/-- Before the call. -/
def init (now_ms : UInt64) (k : κ) : HookCalls κ :=
  { hook := .init now_ms k, results := [], refused := false }

variable (addr : ℕ ↪ ℕ) (ctl : EpollCtl κ) (call : IoCall)

/-- The results after a step. -/
def record (s : HookCalls κ) : HookAct → List (ℤ × CInt)
  | .io n errno => if s.hook.pc.calls then s.results ++ [(n, errno)] else s.results
  | _ => s.results

/-- One step. -/
def stepOk (s : HookCalls κ) (a : HookAct) : Except Fault (HookCalls κ) :=
  (s.hook.stepOk addr ctl call a).map fun hook =>
    { hook := hook, results := s.record a, refused := s.refused || hook.pc == .failed }

/-- One step; after a fault nothing more happens. -/
def step (s : Except Fault (HookCalls κ)) (a : HookAct) : Except Fault (HookCalls κ) :=
  s.bind fun s => s.stepOk addr ctl call a

end HookCalls

end Coroutine
