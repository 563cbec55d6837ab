import Coroutine.Lib.OrdSet
import Coroutine.Spec.Base
import Mathlib.Logic.Embedding.Basic

/-!
# Timers (`timer.h`, `timer.cc`)

`Timer` objects live in a heap indexed by identity; `addr` gives each its address,
which the comparator uses to break ties. `m_timers` is the ordered set as the list
of its elements. The clock (`GetCurrentMS`) is an argument of each call that reads
it. Every function below is one section under `TimerManager::m_mutex`, except
`listExpiredCb`, whose emptiness check and extraction are two sections.
-/

namespace Coroutine

open Lib

/-- What a timer calls: the function it was given, or that function bound to a weak
condition by `addConditionTimer` (`OnTimer`). -/
inductive TimerCb where
  | fn (cb : Callback)
  | onTimer (weak_cond : ℕ) (cb : Option Callback)
  deriving DecidableEq, Repr

/-- A `Timer` object. -/
structure Timer where
  m_recurring : Bool := false
  m_ms : UInt64 := 0
  m_next : UInt64 := 0
  m_cb : Option TimerCb := none

/-- A pointer as `Timer::Comparator` sees it: null, or a deadline and an address. -/
abbrev TimerKey := Option (UInt64 × ℕ)

/-- `Timer::Comparator::operator()`. -/
def Timer.Comparator (lhs rhs : TimerKey) : Bool :=
  match lhs, rhs with
  | none, none => false
  | none, some _ => true
  | some _, none => false
  | some (next, ptr), some (next', ptr') =>
    if next < next' then true
    else if next' < next then false
    else ptr < ptr'

/-- A `TimerManager`, with every `Timer` object made so far. -/
structure TimerManager where
  timer : ℕ → Timer
  made : ℕ
  m_timers : List ℕ
  m_tickled : Bool
  m_previousTime : UInt64

namespace TimerManager

/-- `TimerManager::TimerManager`. -/
def init (now_ms : UInt64) : TimerManager :=
  { timer := fun _ => {}, made := 0, m_timers := [], m_tickled := false, m_previousTime := now_ms }

variable (addr : ℕ ↪ ℕ)

/-- The key of timer `t`. -/
def key (m : TimerManager) (t : ℕ) : TimerKey := some ((m.timer t).m_next, addr t)

/-- The order of `m_timers`. -/
def before (m : TimerManager) (t t' : ℕ) : Prop :=
  Timer.Comparator (m.key addr t) (m.key addr t') = true

instance (m : TimerManager) : DecidableRel (m.before addr) :=
  fun _ _ => inferInstanceAs (Decidable (_ = true))

/-- Write to a `Timer` object. -/
def set (m : TimerManager) (t : ℕ) (x : Timer) : TimerManager :=
  { m with timer := fun i => if i = t then x else m.timer i }

/-- `m_timers.find(t)`. -/
def find (m : TimerManager) (t : ℕ) : Option ℕ := OrdSet.find (m.before addr) t m.m_timers

/-- `m_timers.erase(it)`. -/
def erase (m : TimerManager) (it : ℕ) : TimerManager :=
  { m with m_timers := m.m_timers.erase it }

/-- `m_timers.insert(t)`. -/
def insert (m : TimerManager) (t : ℕ) : TimerManager :=
  { m with m_timers := OrdSet.insert (m.before addr) t m.m_timers }

/-- `TimerManager::addTimer(Timer::ptr, WriteLock&)`. The flag says whether it goes
on to call `onTimerInsertedAtFront`, after it released the lock. -/
def addTimerPtr (m : TimerManager) (val : ℕ) : TimerManager × Bool :=
  let m' := m.insert addr val
  let at_front := m'.m_timers.head? = some val ∧ m'.m_tickled = false
  (if at_front then { m' with m_tickled := true } else m', at_front)

/-- `TimerManager::addTimer(uint64_t, std::function<void()>, bool)`, the handle it
returns first. -/
def addTimer (m : TimerManager) (now ms : UInt64) (cb : Option TimerCb) (recurring : Bool) :
    ℕ × TimerManager × Bool :=
  let timer := m.made
  let m' := { m.set timer ⟨recurring, ms, now + ms, cb⟩ with made := m.made + 1 }
  (timer, m'.addTimerPtr addr timer)

/-- `TimerManager::addConditionTimer`. -/
def addConditionTimer (m : TimerManager) (now ms : UInt64) (cb : Option Callback) (weak_cond : ℕ)
    (recurring : Bool) : ℕ × TimerManager × Bool :=
  m.addTimer addr now ms (some (.onTimer weak_cond cb)) recurring

/-- `Timer::cancel`. Erasing `end()` is undefined. -/
def cancel (m : TimerManager) (t : ℕ) : Except Fault (Bool × TimerManager) :=
  if (m.timer t).m_cb.isSome then
    let m' := m.set t { m.timer t with m_cb := none }
    match m'.find addr t with
    | none => .error .undefined
    | some it => .ok (true, m'.erase it)
  else .ok (false, m)

/-- `Timer::refresh`. -/
def refresh (m : TimerManager) (now : UInt64) (t : ℕ) : Bool × TimerManager :=
  if (m.timer t).m_cb.isNone then (false, m)
  else
    match m.find addr t with
    | none => (false, m)
    | some it =>
      let m' := m.erase it
      let m' := m'.set t { m'.timer t with m_next := now + (m'.timer t).m_ms }
      (true, m'.insert addr t)

/-- `Timer::reset`. The second flag is that of `addTimerPtr`. -/
def reset (m : TimerManager) (now ms : UInt64) (from_now : Bool) (t : ℕ) :
    Bool × TimerManager × Bool :=
  if ms = (m.timer t).m_ms ∧ from_now = false then (true, m, false)
  else if (m.timer t).m_cb.isNone then (false, m, false)
  else
    match m.find addr t with
    | none => (false, m, false)
    | some it =>
      let m' := m.erase it
      let start := if from_now then now else (m'.timer t).m_next - (m'.timer t).m_ms
      let m' := m'.set t { m'.timer t with m_ms := ms, m_next := start + ms }
      (true, m'.addTimerPtr addr t)

/-- `TimerManager::getNextTimer`. -/
def getNextTimer (m : TimerManager) (now_ms : UInt64) : UInt64 × TimerManager :=
  let m' := { m with m_tickled := false }
  match m'.m_timers with
  | [] => (~~~ 0, m')
  | next :: _ =>
    if (m'.timer next).m_next ≤ now_ms then (0, m') else ((m'.timer next).m_next - now_ms, m')

/-- The test of `TimerManager::detectClockRollover`; the subtraction wraps. -/
def clockRollover (m : TimerManager) (now_ms : UInt64) : Bool :=
  now_ms < m.m_previousTime && now_ms < m.m_previousTime - 60 * 60 * 1000

/-- `TimerManager::detectClockRollover`. -/
def detectClockRollover (m : TimerManager) (now_ms : UInt64) : Bool × TimerManager :=
  (m.clockRollover now_ms, { m with m_previousTime := now_ms })

/-- Where `listExpiredCb` cuts `m_timers`: at `end()` after a rollover, else at
`lower_bound` of a probe at address `probe`, moved past the deadlines equal to
`now_ms`. -/
def cut (m : TimerManager) (rollover : Bool) (now_ms : UInt64) (probe : ℕ) : List ℕ × List ℕ :=
  if rollover then (m.m_timers, [])
  else
    let below := fun t => Timer.Comparator (m.key addr t) (some (now_ms, probe))
    let due := fun t => (m.timer t).m_next == now_ms
    let it := m.m_timers.dropWhile below
    (m.m_timers.takeWhile below ++ it.takeWhile due, it.dropWhile due)

/-- One turn of the loop of `listExpiredCb` over the extracted timers. -/
def expireOne (now_ms : UInt64) (acc : List (Option TimerCb) × TimerManager) (t : ℕ) :
    List (Option TimerCb) × TimerManager :=
  let (cbs, m) := acc
  let x := m.timer t
  (cbs ++ [x.m_cb],
    if x.m_recurring then (m.set t { x with m_next := now_ms + x.m_ms }).insert addr t
    else m.set t { x with m_cb := none })

/-- The loop of `listExpiredCb`, from the cut on. -/
def expire (m : TimerManager) (rollover : Bool) (now_ms : UInt64) (probe : ℕ) :
    List (Option TimerCb) × TimerManager :=
  let (expired, rest) := m.cut addr rollover now_ms probe
  expired.foldl (expireOne addr now_ms) ([], { m with m_timers := rest })

/-- The write-locked section of `TimerManager::listExpiredCb`: the callbacks it
appends and the store it leaves. Reading `*begin()` of an empty set is undefined. -/
def listExpired (m : TimerManager) (now_ms : UInt64) (probe : ℕ) :
    Except Fault (List (Option TimerCb) × TimerManager) :=
  let (rollover, m') := m.detectClockRollover now_ms
  if rollover then .ok (m'.expire addr rollover now_ms probe)
  else
    match m'.m_timers with
    | [] => .error .undefined
    | front :: _ =>
      if now_ms < (m'.timer front).m_next then .ok ([], m')
      else .ok (m'.expire addr rollover now_ms probe)

/-- `TimerManager::listExpiredCb` with nothing between its two sections. -/
def listExpiredCb (m : TimerManager) (now_ms : UInt64) (probe : ℕ) :
    Except Fault (List (Option TimerCb) × TimerManager) :=
  if m.m_timers = [] then .ok ([], m) else m.listExpired addr now_ms probe

end TimerManager

/-- A call on a timer handle or one that adds a timer or asks for the next one, with
what it reads of the clock. A number that names no timer made so far stands for a timer
without a callback. -/
inductive TimerOp where
  | addTimer (now ms : UInt64) (cb : Callback) (recurring : Bool)
  | addConditionTimer (now ms : UInt64) (cb : Option Callback) (weak_cond : ℕ) (recurring : Bool)
  | cancel (t : ℕ)
  | refresh (now : UInt64) (t : ℕ)
  | reset (now ms : UInt64) (from_now : Bool) (t : ℕ)
  | getNextTimer (now : UInt64)

/-- One call. -/
def TimerOp.call (addr : ℕ ↪ ℕ) (m : TimerManager) : TimerOp → Except Fault TimerManager
  | .addTimer now ms cb recurring => .ok (m.addTimer addr now ms (some (.fn cb)) recurring).2.1
  | .addConditionTimer now ms cb weak_cond recurring =>
    .ok (m.addConditionTimer addr now ms cb weak_cond recurring).2.1
  | .cancel t => (m.cancel addr t).map (·.2)
  | .refresh now t => .ok (m.refresh addr now t).2
  | .reset now ms from_now t => .ok (m.reset addr now ms from_now t).2.1
  | .getNextTimer now => .ok (m.getNextTimer now).2

/-- A call of a run in which `listExpiredCb` is one step as well. -/
inductive TimerCall where
  | op (o : TimerOp)
  | listExpiredCb (now : UInt64) (probe : ℕ)

/-- One call of such a run; after a fault nothing more happens. -/
def TimerCall.step (addr : ℕ ↪ ℕ) (s : Except Fault TimerManager) (c : TimerCall) :
    Except Fault TimerManager :=
  s.bind fun m =>
    match c with
    | .op o => o.call addr m
    | .listExpiredCb now probe => (m.listExpiredCb addr now probe).map (·.2)

end Coroutine
