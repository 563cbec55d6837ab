import Coroutine.Spec.Timer
import Mathlib.Algebra.Order.Monoid.Unbundled.WithTop

/-!
# Threads that wait for the next timer

Threads of type `Th` on one `TimerManager`, with the clock. A step is a section under
`TimerManager::m_mutex`, the reading of the clock before one, the call of
`onTimerInsertedAtFront` after one, or the clock going forward. `addTimer` makes its `Timer`
before it takes the lock; `listExpiredCb` reads the clock before its two sections.

`seen` and `notified` are not in the source: what the first deadline was when a thread last
called `getNextTimer` (`⊤` when the answer was `~0`), and whether `onTimerInsertedAtFront` has
been called since.
-/

namespace Coroutine

/-- The first deadline. -/
def TimerManager.nextDeadline (m : TimerManager) : WithTop ℕ :=
  match m.m_timers with
  | [] => ⊤
  | front :: _ => ((m.timer front).m_next.toNat : WithTop ℕ)

/-- Where a thread stands: in no call; in `addTimer`, with the timer it made; about to call
`onTimerInsertedAtFront`; in `listExpiredCb`, before and between its two sections. -/
inductive WaiterPc where
  | out
  | made (now ms : UInt64) (cb : TimerCb) (recurring : Bool)
  | notify
  | read (now_ms : UInt64)
  | checked (now_ms : UInt64)
  deriving DecidableEq, Repr

/-- A call. -/
inductive WaiterCall where
  | addTimer (ms : UInt64) (cb : TimerCb) (recurring : Bool)
  | cancel (t : ℕ)
  | refresh (t : ℕ)
  | reset (ms : UInt64) (from_now : Bool) (t : ℕ)
  | getNextTimer
  | listExpiredCb

/-- A step: the clock goes forward, a thread begins a call, or goes on with the one it is in. -/
inductive WaiterAct (Th : Type) where
  | tick (now_ms : UInt64)
  | call (th : Th) (c : WaiterCall)
  | go (th : Th) (probe : ℕ)

/-- The threads and their `TimerManager`. -/
structure TimerWaiters (Th : Type) where
  m : TimerManager
  clock : UInt64
  pc : Th → WaiterPc
  seen : Th → Option (WithTop ℕ)
  notified : Th → Bool
  fault : Option Fault

namespace TimerWaiters

variable {Th : Type} [DecidableEq Th]

/-- A new `TimerManager`. -/
def init (now_ms : UInt64) : TimerWaiters Th :=
  { m := TimerManager.init now_ms, clock := now_ms, pc := fun _ => .out, seen := fun _ => none
    notified := fun _ => false, fault := none }

/-- Move a thread. -/
def setPc (s : TimerWaiters Th) (th : Th) (pc : WaiterPc) : TimerWaiters Th :=
  { s with pc := Function.update s.pc th pc }

/-- Begin a call; one that takes the lock at once is one section. -/
def call (addr : ℕ ↪ ℕ) (s : TimerWaiters Th) (th : Th) : WaiterCall → TimerWaiters Th
  | .addTimer ms cb recurring => s.setPc th (.made s.clock ms cb recurring)
  | .cancel t =>
    match s.m.cancel addr t with
    | .error e => { s with fault := some e }
    | .ok (_, m) => { s with m := m }
  | .refresh t => { s with m := (s.m.refresh addr s.clock t).2 }
  | .reset ms from_now t =>
    let (_, m, at_front) := s.m.reset addr s.clock ms from_now t
    { s.setPc th (if at_front then .notify else .out) with m := m }
  | .getNextTimer =>
    let (next, m) := s.m.getNextTimer s.clock
    { s with
      m := m
      seen := Function.update s.seen th (some (if next = ~~~ 0 then ⊤ else s.m.nextDeadline))
      notified := Function.update s.notified th false }
  | .listExpiredCb => s.setPc th (.read s.clock)

/-- Go on with a call. -/
def go (addr : ℕ ↪ ℕ) (s : TimerWaiters Th) (th : Th) (probe : ℕ) : TimerWaiters Th :=
  match s.pc th with
  | .out => s
  | .made now ms cb recurring =>
    let (_, m, at_front) := s.m.addTimer addr now ms (some cb) recurring
    { s.setPc th (if at_front then .notify else .out) with m := m }
  | .notify => { s.setPc th .out with notified := fun _ => true }
  | .read now_ms => s.setPc th (if s.m.m_timers = [] then .out else .checked now_ms)
  | .checked now_ms =>
    match s.m.listExpired addr now_ms probe with
    | .error e => { s with fault := some e }
    | .ok (_, m) => { s.setPc th .out with m := m }

/-- One step; after a fault nothing more happens, and the clock never goes back. -/
def step (addr : ℕ ↪ ℕ) (s : TimerWaiters Th) (a : WaiterAct Th) : TimerWaiters Th :=
  if s.fault.isSome then s
  else
    match a with
    | .tick now_ms => if s.clock ≤ now_ms then { s with clock := now_ms } else s
    | .call th c => if s.pc th = .out then s.call addr th c else s
    | .go th probe => s.go addr th probe

end TimerWaiters

end Coroutine
