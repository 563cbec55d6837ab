import Coroutine.Spec.Event
import Mathlib.Logic.Function.Basic

/-!
# The kernel's interest set

`InterestSet` is the kernel as `epoll_ctl` sees it: a mask for every descriptor that has
been added. `EPOLL_CTL_ADD` fails on a descriptor that is present, `EPOLL_CTL_MOD` and
`EPOLL_CTL_DEL` on one that is absent. A request may be refused for other reasons, which
the parameter `other` decides from a state of its own.
-/

namespace Coroutine

/-- The interest set of an epoll instance. -/
structure InterestSet (κ : Type) where
  /-- the mask of each descriptor that is present -/
  mask : Int32 → Option (BitVec 32)
  /-- how many requests chose the wrong operation -/
  mistaken : ℕ
  other : κ

/-- The operation does not fit what the kernel has: `EEXIST` or `ENOENT`. -/
def CtlOp.misfits : CtlOp → Option (BitVec 32) → Bool
  | .ADD, entry => entry.isSome
  | .MOD, entry => entry.isNone
  | .DEL, entry => entry.isNone

/-- The entry an accepted operation leaves. -/
def CtlOp.entry : CtlOp → BitVec 32 → Option (BitVec 32)
  | .ADD, events => some events
  | .MOD, events => some events
  | .DEL, _ => none

namespace InterestSet

variable {κ : Type}

/-- The set of a new epoll instance. -/
def empty (o : κ) : InterestSet κ := { mask := fun _ => none, mistaken := 0, other := o }

/-- `epoll_ctl` on an interest set. -/
def ctl (other : EpollCtl κ) : EpollCtl (InterestSet κ) := fun k op fd events =>
  if op.misfits (k.mask fd) then (-1, { k with mistaken := k.mistaken + 1 })
  else
    let (rt, o) := other k.other op fd events
    if rt ≠ 0 then (rt, { k with other := o })
    else (0, { k with mask := Function.update k.mask fd (op.entry events), other := o })

end InterestSet

/-- The entry that belongs to a mask of registered events. -/
def interestOf (m_events : BitVec 32) : Option (BitVec 32) :=
  if m_events = 0 then none else some (EPOLLET ||| m_events)

/-- The entry the kernel should have for `fd`, from `m_fdContexts[fd]`. -/
def IOManager.interest {κ : Type} (s : IOManager κ) (fd : Int32) : Option (BitVec 32) :=
  match s.slot fd with
  | .error _ => none
  | .ok p => interestOf (s.fdctx p).m_events

end Coroutine
