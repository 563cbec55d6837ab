import Coroutine.Spec.Event
import Mathlib.Logic.Function.Basic

/-!
# Threads in `addEvent`

A call of `addEvent` has three sections: the size of `m_fdContexts` is tested (and the
context looked up) under the read lock; if the table is too small it is resized and the
context looked up under the write lock; the event is registered under the mutex of the
context. Between two sections any other thread may run.
-/

namespace Coroutine

/-- The arguments of a call of `addEvent`, on a non-negative descriptor. -/
structure AddCall where
  caller : Caller
  fd : Int32
  event : Event
  cb : Option Callback
  nonneg : 0 ≤ fd

/-- Where a thread stands in `addEvent`. -/
inductive AddPc where
  /-- not in a call -/
  | out
  /-- found the table too small and holds no lock -/
  | small (call : AddCall)
  /-- has the context `fd_ctx` -/
  | found (call : AddCall) (fd_ctx : ℕ)

/-- Threads of type `T` on an `IOManager`. -/
structure AddThreads (κ T : Type) where
  io : IOManager κ
  pc : T → AddPc
  fault : Option Fault

/-- The sections of `addEvent`. -/
inductive AddAct (T : Type) where
  | check (th : T) (call : AddCall)
  | grow (th : T)
  | register (th : T)

namespace AddThreads

variable {κ T : Type} [DecidableEq T]

/-- All threads outside `addEvent`. -/
def init (k : κ) : AddThreads κ T := { io := IOManager.init k, pc := fun _ => .out, fault := none }

/-- `m_fdContexts[fd]`, after which the thread has the context. -/
def enter (s : AddThreads κ T) (th : T) (call : AddCall) : AddThreads κ T :=
  match s.io.slot call.fd with
  | .error e => { s with fault := some e }
  | .ok p => { s with pc := Function.update s.pc th (.found call p) }

/-- One section of one thread. -/
def step (ctl : EpollCtl κ) (s : AddThreads κ T) (a : AddAct T) : AddThreads κ T :=
  if s.fault.isSome then s
  else
    match a with
    | .check th call =>
      match s.pc th with
      | .out =>
        if s.io.inTable call.fd then s.enter th call
        else { s with pc := Function.update s.pc th (.small call) }
      | _ => s
    | .grow th =>
      match s.pc th with
      | .small call =>
        { s with io := s.io.contextResize (IOManager.growSize call.fd) }.enter th call
      | _ => s
    | .register th =>
      match s.pc th with
      | .found call p =>
        match s.io.addEventAt ctl call.caller p call.fd call.event call.cb with
        | .error e => { s with fault := some e }
        | .ok (_, io) => { s with io := io, pc := Function.update s.pc th .out }
      | _ => s

end AddThreads

end Coroutine
