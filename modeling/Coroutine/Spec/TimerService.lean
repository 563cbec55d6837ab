import Coroutine.Spec.Timer
import Mathlib.Logic.Function.Basic

/-!
# What a `TimerManager` is for

`TimerService` says it without the set, the comparator and the addresses: each timer made has
a period and, while it is pending, the time it is due and what it calls. `Step` relates a
call, its answer and the state after it. Timers due at the same time may be handed out in any
order, and with another timer due at the same time either may count as the first.

`TimerCall.answer` is a call on the manager itself with its answer, and `service` reads the
state of the service off the manager.
-/

namespace Coroutine

/-- What a call answers; `front` says whether `onTimerInsertedAtFront` is called. -/
inductive TimerAnswer where
  | timer (t : ℕ) (front : Bool)
  | done (b : Bool)
  | reset (b front : Bool)
  | wait (ms : UInt64)
  | cbs (cbs : List (Option TimerCb))
  deriving DecidableEq, Repr

/-- The timers as their users see them. -/
@[ext]
structure TimerService where
  made : ℕ
  period : ℕ → UInt64
  recurring : ℕ → Bool
  /-- the time a pending timer is due, and what it calls -/
  pending : ℕ → Option (UInt64 × TimerCb)
  /-- a timer has asked for attention since the last wait -/
  tickled : Bool
  /-- the clock at the last expiry -/
  seen : UInt64

namespace TimerService

/-- Timer `t` is due at `d`. -/
def Due (s : TimerService) (t : ℕ) (d : UInt64) : Prop := ∃ cb, s.pending t = some (d, cb)

/-- A timer that is made due at `d` asks for attention: nothing did yet, and none is due before. -/
def Front (s : TimerService) (d : UInt64) (front : Bool) : Prop :=
  (front = true → s.tickled = false ∧ ∀ t d', s.Due t d' → d ≤ d') ∧
    (front = false → s.tickled = true ∨ ∃ t d', s.Due t d' ∧ d' ≤ d)

/-- The clock has gone back by more than an hour; the subtraction wraps. -/
def rollover (s : TimerService) (now : UInt64) : Bool :=
  now < s.seen && now < s.seen - 60 * 60 * 1000

/-- Timer `t` pends as `p` says. -/
def pend (s : TimerService) (t : ℕ) (p : Option (UInt64 × TimerCb)) : TimerService :=
  { s with pending := Function.update s.pending t p }

/-- A new timer. -/
def make (s : TimerService) (now ms : UInt64) (cb : TimerCb) (recurring front : Bool) :
    TimerService where
  made := s.made + 1
  period := Function.update s.period s.made ms
  recurring := Function.update s.recurring s.made recurring
  pending := Function.update s.pending s.made (some (now + ms, cb))
  tickled := s.tickled || front
  seen := s.seen

/-- What an expiry at `now` leaves of a timer that it hands out. -/
def again (s : TimerService) (now : UInt64) (t : ℕ) : Option (UInt64 × TimerCb) :=
  if s.recurring t then (s.pending t).map fun p => (now + s.period t, p.2) else none

/-- **What a call may answer, and the state it may leave.** -/
inductive Step (s : TimerService) : TimerCall → TimerAnswer → TimerService → Prop
  | addTimer (now ms : UInt64) (cb : Callback) (recurring front : Bool)
      (hfront : s.Front (now + ms) front) :
      Step s (.op (.addTimer now ms cb recurring)) (.timer s.made front)
        (s.make now ms (.fn cb) recurring front)
  | addConditionTimer (now ms : UInt64) (cb : Option Callback) (weak_cond : ℕ)
      (recurring front : Bool) (hfront : s.Front (now + ms) front) :
      Step s (.op (.addConditionTimer now ms cb weak_cond recurring)) (.timer s.made front)
        (s.make now ms (.onTimer weak_cond cb) recurring front)
  | cancel (t : ℕ) : Step s (.op (.cancel t)) (.done (s.pending t).isSome) (s.pend t none)
  | refresh (now : UInt64) (t : ℕ) :
      Step s (.op (.refresh now t)) (.done (s.pending t).isSome)
        (s.pend t ((s.pending t).map fun p => (now + s.period t, p.2)))
  | resetSame (now : UInt64) (t : ℕ) :
      Step s (.op (.reset now (s.period t) false t)) (.reset true false) s
  | resetIdle (now ms : UInt64) (from_now : Bool) (t : ℕ)
      (hnew : ¬ (ms = s.period t ∧ from_now = false)) (hidle : s.pending t = none) :
      Step s (.op (.reset now ms from_now t)) (.reset false false) s
  | reset (now ms : UInt64) (from_now : Bool) (t : ℕ) (d : UInt64) (cb : TimerCb) (front : Bool)
      (hnew : ¬ (ms = s.period t ∧ from_now = false)) (hpend : s.pending t = some (d, cb))
      (hfront : (s.pend t none).Front ((if from_now then now else d - s.period t) + ms) front) :
      Step s (.op (.reset now ms from_now t)) (.reset true front)
        { s.pend t (some ((if from_now then now else d - s.period t) + ms, cb)) with
          period := Function.update s.period t ms
          tickled := s.tickled || front }
  | getNextTimerNone (now : UInt64) (hnone : ∀ t, s.pending t = none) :
      Step s (.op (.getNextTimer now)) (.wait (~~~ 0)) { s with tickled := false }
  | getNextTimer (now : UInt64) (t : ℕ) (d : UInt64) (hdue : s.Due t d)
      (hfirst : ∀ t' d', s.Due t' d' → d ≤ d') :
      Step s (.op (.getNextTimer now)) (.wait (if d ≤ now then 0 else d - now))
        { s with tickled := false }
  | listExpiredNone (now : UInt64) (probe : ℕ) (hnone : ∀ t, s.pending t = none) :
      Step s (.listExpiredCb now probe) (.cbs []) s
  | listExpired (now : UInt64) (probe : ℕ) (ts : List ℕ) (hsome : ∃ t, s.pending t ≠ none)
      (honce : ts.Nodup)
      (hdue : ∀ t, t ∈ ts ↔ ∃ d, s.Due t d ∧ (s.rollover now = true ∨ d ≤ now))
      (horder : ts.Pairwise fun t t' => ∀ d d', s.Due t d → s.Due t' d' → d ≤ d') :
      Step s (.listExpiredCb now probe) (.cbs (ts.map fun t => (s.pending t).map (·.2)))
        { s with
          pending := fun t => if t ∈ ts then s.again now t else s.pending t
          seen := now }

end TimerService

/-- The timers of a manager. -/
def TimerManager.service (m : TimerManager) : TimerService where
  made := m.made
  period := fun t => (m.timer t).m_ms
  recurring := fun t => (m.timer t).m_recurring
  pending := fun t => (m.timer t).m_cb.map fun cb => ((m.timer t).m_next, cb)
  tickled := m.m_tickled
  seen := m.m_previousTime

/-- A call with its answer. -/
def TimerCall.answer (addr : ℕ ↪ ℕ) (m : TimerManager) :
    TimerCall → Except Fault (TimerAnswer × TimerManager)
  | .op (.addTimer now ms cb recurring) =>
    let (t, m', front) := m.addTimer addr now ms (some (.fn cb)) recurring
    .ok (.timer t front, m')
  | .op (.addConditionTimer now ms cb weak_cond recurring) =>
    let (t, m', front) := m.addConditionTimer addr now ms cb weak_cond recurring
    .ok (.timer t front, m')
  | .op (.cancel t) => (m.cancel addr t).map fun (b, m') => (.done b, m')
  | .op (.refresh now t) =>
    let (b, m') := m.refresh addr now t
    .ok (.done b, m')
  | .op (.reset now ms from_now t) =>
    let (b, m', front) := m.reset addr now ms from_now t
    .ok (.reset b front, m')
  | .op (.getNextTimer now) =>
    let (ms, m') := m.getNextTimer now
    .ok (.wait ms, m')
  | .listExpiredCb now probe => (m.listExpiredCb addr now probe).map fun (cbs, m') => (.cbs cbs, m')

end Coroutine
