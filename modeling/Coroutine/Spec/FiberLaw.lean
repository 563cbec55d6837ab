import Coroutine.Spec.FiberSwitch

/-!
# Fibers swapped in by the main fiber of a thread (`fiber.cc`, `test_fiber.cc`)

The code of a thread's main fiber makes a fiber and calls `swapIn` on it until it has ended. The
callback is given by its yields and its end; the index of its next segment is on the stack of the
fiber, and what the other stacks hold is as in the model of one thread.

`Scheduler::GetMainFiber()` may point to a root fiber that was destroyed with its scheduler, and
nothing resets it. The log of the segments that have run is not in the source.
-/

namespace Coroutine

/-- How a segment of a callback yields. -/
inductive Yield where
  | toHold
  | toReady
  deriving DecidableEq, Repr

/-- A callback: how each segment but the last yields, and whether the last one throws. -/
structure Script where
  yields : List Yield
  throws : Bool
  deriving DecidableEq, Repr

/-- A thread, with the callbacks of its fibers. -/
structure LawThread where
  thread : FiberThread
  freed : FiberPtr → Bool := fun _ => false
  script : FiberPtr → Script := fun _ => { yields := [], throws := false }
  segment : FiberPtr → ℕ := fun _ => 0
  ran : List (FiberPtr × ℕ) := []

namespace Script

/-- What segment `i` does at its end. -/
def act (cb : Script) (i : ℕ) : YieldAct :=
  match cb.yields[i]? with
  | some .toHold => .yieldToHold
  | some .toReady => .yieldToReady
  | none => if cb.throws then .throw else .finish

end Script

namespace LawThread

/-- The fiber exists. -/
def Live (s : LawThread) (m : FiberPtr) : Prop := m < s.thread.nfiber ∧ s.freed m = false

instance (s : LawThread) (m : FiberPtr) : Decidable (s.Live m) :=
  inferInstanceAs (Decidable (_ ∧ _))

/-- `Scheduler::GetMainFiber()` points to a fiber that does not exist. -/
def Dangling (s : LawThread) : Prop := ∃ m ∈ s.thread.mainFiber, ¬ s.Live m

instance (s : LawThread) : Decidable s.Dangling :=
  match h : s.thread.mainFiber with
  | none => isFalse fun ⟨m, hm, _⟩ => by rw [h] at hm; cases hm
  | some m => decidable_of_iff (¬ s.Live m) ⟨fun hm => ⟨m, h, hm⟩, fun ⟨_, hm', hnot⟩ => by
      rw [h] at hm'; cases hm'; exact hnot⟩

/-- A switch by way of the main fiber, which ends in `t` if the fiber exists. -/
def switch (s : LawThread) (t : FiberThread) : LawThread :=
  { s with thread := if s.Dangling then s.thread.abort .undefined else t }

/-- `new Fiber(cb)`; its name is `s.thread.nfiber`. -/
def newFiber (s : LawThread) (cb : Script) : LawThread :=
  { s with
    thread := s.thread.newFiber (some .user)
    freed := Function.update s.freed s.thread.nfiber false
    script := Function.update s.script s.thread.nfiber cb
    segment := Function.update s.segment s.thread.nfiber 0 }

/-- `Fiber::swapIn`, called by the main fiber; the place after it is told by its number. -/
def swapIn (s : LawThread) (this : FiberPtr) : LawThread :=
  if (s.thread.fiber this).m_state = .EXEC then { s with thread := s.thread.abort .assertion }
  else s.switch (s.thread.swapIn this .fiber)

/-- The next segment of the callback of `cur`, up to its `swapOut` or its end. -/
def runSegment (s : LawThread) (cur : FiberPtr) : LawThread :=
  let act := (s.script cur).act (s.segment cur)
  let s := { s with
    ran := s.ran ++ [(cur, s.segment cur)]
    segment := Function.update s.segment cur (s.segment cur + 1) }
  match act with
  | .finish | .throw => { s with thread := s.thread.userStep cur act }
  | act => s.switch (s.thread.userStep cur act)

/-- A step of the code of a fiber. -/
def fiberStep (s : LawThread) : LawThread :=
  match s.thread.here.point with
  | .mainFunc => { s with thread := s.thread.MainFunc }
  | .user cur => s.runSegment cur
  | .leave cur => s.switch (s.thread.swapOut cur .neverReach)
  | _ => { s with thread := s.thread.next }

/-- The fibers run until the main fiber does again, or the process has ended. -/
def resume : (fuel : ℕ) → LawThread → Option LawThread
  | 0, _ => none
  | fuel + 1, s =>
    if s.thread.fault.isSome ∨ s.thread.here.stack = .thread then some s else resume fuel s.fiberStep

/-- `~Scheduler()` in `main`, once `stop()` has set `m_stopping`, and the destructor of the root
fiber; the `t_fiber` of `scheduler.cc` keeps its value. -/
def destroyScheduler (s : LawThread) : LawThread :=
  match s.thread.m_rootFiber with
  | none => s
  | some root =>
    let st := (s.thread.fiber root).m_state
    if st = .TERM ∨ st = .INIT ∨ st = .EXCEPT then
      { s with
        thread := { s.thread.goto .main with
          t_scheduler := false, m_rootFiber := none, m_rootThread := -1 }
        freed := Function.update s.freed root true }
    else { s with thread := s.thread.abort .assertion }

end LawThread

end Coroutine
