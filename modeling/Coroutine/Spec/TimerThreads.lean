import Coroutine.Spec.Timer

/-!
# Threads on one `TimerManager`

Each section under `TimerManager::m_mutex` is one step. `listExpiredCb` reads the
clock, tests the set for emptiness in one section and extracts in a second one; a
thread in between is `checked`, with the clock it read.
-/

namespace Coroutine

/-- What a section can do that C++ leaves undefined. -/
inductive TimerUb where
  | beginOfEmpty
  | eraseEnd
  deriving DecidableEq, Repr

/-- Threads (numbered) on a `TimerManager`. -/
structure TimerThreads where
  m : TimerManager
  checked : ℕ → Option UInt64
  ub : Option TimerUb

/-- A step of thread `th`. -/
inductive TimerAct where
  | expiredCheck (th : ℕ) (now_ms : UInt64)
  | expiredWrite (th probe : ℕ)
  | call (th : ℕ) (op : TimerOp)

namespace TimerThreads

/-- All threads outside `listExpiredCb`. -/
def init (now_ms : UInt64) : TimerThreads :=
  { m := TimerManager.init now_ms, checked := fun _ => none, ub := none }

/-- Move thread `th` into or out of the gap of `listExpiredCb`. -/
def setChecked (s : TimerThreads) (th : ℕ) (now_ms : Option UInt64) : TimerThreads :=
  { s with checked := fun i => if i = th then now_ms else s.checked i }

/-- One section. A thread inside `listExpiredCb` makes no other call. -/
def step (addr : ℕ ↪ ℕ) (s : TimerThreads) (a : TimerAct) : TimerThreads :=
  if s.ub.isSome then s
  else
    match a with
    | .expiredCheck th now_ms =>
      if (s.checked th).isSome ∨ s.m.m_timers = [] then s else s.setChecked th (some now_ms)
    | .expiredWrite th probe =>
      match s.checked th with
      | none => s
      | some now_ms =>
        match s.m.listExpired addr now_ms probe with
        | .error _ => { s with ub := some .beginOfEmpty }
        | .ok (_, m') => { s.setChecked th none with m := m' }
    | .call th op =>
      if (s.checked th).isSome then s
      else
        match op.call addr s.m with
        | .error _ => { s with ub := some .eraseEnd }
        | .ok m' => { s with m := m' }

end TimerThreads

end Coroutine
