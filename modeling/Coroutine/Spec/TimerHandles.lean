import Coroutine.Spec.TimerLog

/-!
# Timer handles

Runs in which `addTimer` may also be given an empty function, whose timer is then in the
set although its callback is null, and in which the write-locked section of `listExpiredCb`
is a step of its own. Beside the manager stands the clock at which each timer was last
armed, which is not in the source.
-/

namespace Coroutine

/-- A step of such a run. -/
inductive HandleCall where
  | op (o : TimerOp)
  | addEmpty (now ms : UInt64) (recurring : Bool)
  | listExpired (now : UInt64) (probe : ℕ)

namespace HandleCall

/-- The manager after the step. -/
def call (addr : ℕ ↪ ℕ) (m : TimerManager) : HandleCall → Except Fault TimerManager
  | .op o => o.call addr m
  | .addEmpty now ms recurring => .ok (m.addTimer addr now ms none recurring).2.1
  | .listExpired now probe => (m.listExpired addr now probe).map (·.2)

/-- The clock at which timer `t` is armed by the step, if it is. -/
def arms (addr : ℕ ↪ ℕ) (m : TimerManager) (t : ℕ) : HandleCall → Option UInt64
  | .op o => (TimerCall.op o).arms addr m t
  | .addEmpty now _ _ => if t = m.made then some now else none
  | .listExpired now probe =>
    if t ∈ m.expired addr now probe ∧ (m.timer t).m_recurring = true then some now else none

end HandleCall

/-- A `TimerManager` and the clock at which each timer was last armed. -/
structure HandleLog where
  m : TimerManager
  start : ℕ → UInt64

namespace HandleLog

/-- A new `TimerManager`. -/
def init (now_ms : UInt64) : HandleLog := { m := TimerManager.init now_ms, start := fun _ => 0 }

/-- One step; after a fault nothing more happens. -/
def step (addr : ℕ ↪ ℕ) (s : Except Fault HandleLog) (c : HandleCall) : Except Fault HandleLog :=
  s.bind fun l => (c.call addr l.m).map fun m =>
    { m := m, start := fun t => (c.arms addr l.m t).getD (l.start t) }

end HandleLog

/-- A call on a timer handle. -/
inductive HandleOp where
  | cancel (t : ℕ)
  | refresh (now : UInt64) (t : ℕ)
  | reset (now ms : UInt64) (from_now : Bool) (t : ℕ)

namespace HandleOp

/-- The timer it is called on. -/
def timer : HandleOp → ℕ
  | .cancel t | .refresh _ t | .reset _ _ _ t => t

/-- What the call returns, and the manager it leaves. -/
def call (addr : ℕ ↪ ℕ) (m : TimerManager) : HandleOp → Except Fault (Bool × TimerManager)
  | .cancel t => m.cancel addr t
  | .refresh now t => .ok (m.refresh addr now t)
  | .reset now ms from_now t =>
    let (armed, m', _) := m.reset addr now ms from_now t
    .ok (armed, m')

end HandleOp

end Coroutine
