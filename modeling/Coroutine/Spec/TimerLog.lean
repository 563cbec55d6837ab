import Coroutine.Spec.Timer

/-!
# Calls on timers with what became of each timer

A run of whole calls (`TimerCall`) beside a record of it, which is not in the source:
`start` is the clock at which a timer was last armed, `given` the callback it was made
with, and `log` lists the cancellations that succeeded and, for each `listExpiredCb`, the
timers it took out of the set and the callbacks it handed out.
-/

namespace Coroutine

namespace TimerManager

/-- The vector `expired` of `listExpiredCb`. -/
def expired (addr : ℕ ↪ ℕ) (m : TimerManager) (now_ms : UInt64) (probe : ℕ) : List ℕ :=
  if m.clockRollover now_ms then (m.cut addr true now_ms probe).1
  else
    match m.m_timers with
    | [] => []
    | front :: _ =>
      if now_ms < (m.timer front).m_next then [] else (m.cut addr false now_ms probe).1

end TimerManager

/-- An entry of the record. -/
inductive TimerEvent where
  | cancelled (t : ℕ)
  | expired (timers : List ℕ) (cbs : List (Option TimerCb))

/-- The timers whose callbacks were handed out. -/
def TimerEvent.handed : TimerEvent → List ℕ
  | .cancelled _ => []
  | .expired timers _ => timers

/-- A `TimerManager` and the record of the calls made so far. -/
structure TimerLog where
  m : TimerManager
  start : ℕ → ℕ
  given : ℕ → Option TimerCb
  log : List TimerEvent

namespace TimerCall

/-- What the call adds to `log`. -/
def events (addr : ℕ ↪ ℕ) (m : TimerManager) : TimerCall → List TimerEvent
  | .op (.cancel t) =>
    match m.cancel addr t with
    | .ok (true, _) => [.cancelled t]
    | _ => []
  | .listExpiredCb now probe =>
    match m.listExpiredCb addr now probe with
    | .ok (cbs, _) => [.expired (m.expired addr now probe) cbs]
    | .error _ => []
  | _ => []

/-- The clock at which timer `t` is armed by the call, if it is. -/
def arms (addr : ℕ ↪ ℕ) (m : TimerManager) (t : ℕ) : TimerCall → Option UInt64
  | .op (.addTimer now _ _ _) | .op (.addConditionTimer now _ _ _ _) =>
    if t = m.made then some now else none
  | .op (.refresh now t') => if t = t' ∧ (m.refresh addr now t').1 = true then some now else none
  | .op (.reset now ms from_now t') =>
    if t = t' ∧ from_now = true ∧ (m.reset addr now ms from_now t').1 = true then some now else none
  | .listExpiredCb now probe =>
    if t ∈ m.expired addr now probe ∧ (m.timer t).m_recurring = true then some now else none
  | _ => none

/-- The callback timer `t` is made with by the call, if it is. -/
def gives (m : TimerManager) (t : ℕ) : TimerCall → Option TimerCb
  | .op (.addTimer _ _ cb _) => if t = m.made then some (.fn cb) else none
  | .op (.addConditionTimer _ _ cb weak_cond _) =>
    if t = m.made then some (.onTimer weak_cond cb) else none
  | _ => none

end TimerCall

namespace TimerLog

/-- A new `TimerManager`. -/
def init (now_ms : UInt64) : TimerLog :=
  { m := TimerManager.init now_ms, start := fun _ => 0, given := fun _ => none, log := [] }

/-- One call; after a fault nothing more happens. -/
def step (addr : ℕ ↪ ℕ) (s : Except Fault TimerLog) (c : TimerCall) : Except Fault TimerLog :=
  s.bind fun l => (c.step addr (.ok l.m)).map fun m =>
    { m := m
      start := fun t => ((c.arms addr l.m t).map (·.toNat)).getD (l.start t)
      given := fun t => (c.gives l.m t).or (l.given t)
      log := l.log ++ c.events addr l.m }

/-- The deadline of a timer, as an exact sum. -/
def deadline (l : TimerLog) (t : ℕ) : ℕ := l.start t + (l.m.timer t).m_ms.toNat

end TimerLog

end Coroutine
