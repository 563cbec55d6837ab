import Mathlib.Algebra.Group.Int.Defs
import Mathlib.Algebra.Group.Nat.Defs
import Mathlib.Data.Int.Notation
import Mathlib.Data.Nat.Notation

/-!
# Shared vocabulary

Values of `std::function<void()>` and handles on fibers are named by numbers; an empty
function and a null pointer are `none`. A call that does not return to its caller ends
in a `Fault`.
-/

namespace Coroutine

/-- A non-empty `std::function<void()>`. -/
abbrev Callback := ℕ

/-- A non-null `Fiber::ptr`. -/
abbrev FiberPtr := ℕ

/-- What `Scheduler::scheduler` queues: an entry holds a fiber or a callback. -/
inductive FiberOrcb where
  | fiber (f : FiberPtr)
  | cb (cb : Callback)
  deriving DecidableEq, Repr

/-- How a call can end other than by returning: a failed `DUAN_ASSERT` aborts the
process, and what C++ leaves undefined ends the part of a run that means anything. -/
inductive Fault where
  | assertion
  | undefined
  deriving DecidableEq, Repr

end Coroutine
