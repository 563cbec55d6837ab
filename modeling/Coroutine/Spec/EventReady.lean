import Coroutine.Spec.EventKernel

/-!
# Readiness (`IOManager::idle` and the kernel's ready list)

The kernel of `EventKernel`, as far as `epoll_wait` sees it. Every descriptor is registered with
`EPOLLET`: it is put on the ready list when it becomes ready for something that is asked for, and
when `epoll_ctl` asks for something it is ready for; `epoll_wait` takes it off the list. Errors and
hang-ups count whatever is asked for. What a worker has got from `epoll_wait` it keeps until its
event loop comes to it.

A descriptor's entry has the pointer of the context that the table has for it.
-/

namespace Coroutine

/-- What `epoll_wait` reports of a descriptor that is asked for `events`. -/
def askedFor (events : BitVec 32) : BitVec 32 := events ||| (EPOLLERR ||| EPOLLHUP)

/-- What each open file is ready for, and the ready list. -/
structure ReadyList (κ : Type) where
  ready : Int32 → BitVec 32
  listed : Int32 → Bool
  other : κ

namespace ReadyList

variable {κ : Type}

/-- Nothing is ready. -/
def empty (o : κ) : ReadyList κ := { ready := fun _ => 0, listed := fun _ => false, other := o }

/-- The descriptor is on the list, or not any more. -/
def list (k : ReadyList κ) (fd : Int32) (b : Bool) : ReadyList κ :=
  { k with listed := Function.update k.listed fd b }

/-- `epoll_ctl` on the ready list; `other` may refuse. -/
def ctl (other : EpollCtl κ) : EpollCtl (ReadyList κ) := fun k op fd events =>
  let (rt, o) := other k.other op fd events
  let k := { k with other := o }
  if rt ≠ 0 then (rt, k)
  else
    match op with
    | .ADD | .MOD => (0, k.list fd (k.listed fd || k.ready fd &&& askedFor events != 0))
    | .DEL => (0, k.list fd false)

/-- The open file of `fd`, of which `entry` is asked for, becomes ready for `bits`, and for nothing
else; `again` if there is more of what it was ready for. -/
def change (k : ReadyList κ) (entry : Option (BitVec 32)) (fd : Int32) (bits : BitVec 32)
    (again : Bool) : ReadyList κ :=
  let k' := { k with ready := Function.update k.ready fd bits }
  match entry with
  | none => k'
  | some events =>
    k'.list fd (k.listed fd || again || bits &&& ~~~ k.ready fd &&& askedFor events != 0)

end ReadyList

/-- An `IOManager` with the reports that workers have in hand. -/
structure EventReady (κ : Type) where
  io : IOManager (InterestSet (ReadyList κ))
  reports : List (ℕ × BitVec 32)

/-- A step: a call; a change of an open file; `epoll_wait` reports a descriptor; a worker's event
loop comes to a report. -/
inductive ReadyAct where
  | call (op : EventOp)
  | change (fd : Int32) (bits : BitVec 32) (again : Bool)
  | wait (fd : Int32)
  | turn (i : ℕ)

namespace EventReady

variable {κ : Type}

/-- A new `IOManager`. -/
def init (o : κ) : EventReady κ :=
  { io := IOManager.init (InterestSet.empty (ReadyList.empty o)), reports := [] }

/-- The ready list. -/
def list (s : EventReady κ) : ReadyList κ := s.io.kernel.other

/-- A new state of the ready list. -/
def setList (s : EventReady κ) (k : ReadyList κ) : EventReady κ :=
  { s with io := { s.io with kernel := { s.io.kernel with other := k } } }

/-- `epoll_wait` takes `fd` off the list, and reports what it is then ready for, if anything. -/
def wait (s : EventReady κ) (fd : Int32) : EventReady κ :=
  if s.list.listed fd then
    let s' := s.setList (s.list.list fd false)
    match s.io.kernel.mask fd, s.io.slot fd with
    | some entry, .ok p =>
      let events := s.list.ready fd &&& askedFor entry
      if events = 0 then s' else { s' with reports := s.reports ++ [(p, events)] }
    | _, _ => s'
  else s

variable (other : EpollCtl κ)

/-- One step; only the event loop dispatches. -/
def stepOk (s : EventReady κ) : ReadyAct → Except Fault (EventReady κ)
  | .call (.dispatch _ _) => .ok s
  | .call op => (op.call (InterestSet.ctl (ReadyList.ctl other)) s.io).map fun io => { s with io := io }
  | .change fd bits again => .ok (s.setList (s.list.change (s.io.kernel.mask fd) fd bits again))
  | .wait fd => .ok (s.wait fd)
  | .turn i =>
    match s.reports[i]? with
    | none => .ok s
    | some (p, events) =>
      (s.io.dispatch (InterestSet.ctl (ReadyList.ctl other)) p events).map fun (_, io) =>
        { io := io, reports := s.reports.eraseIdx i }

/-- One step; after a fault nothing more happens. -/
def step (s : Except Fault (EventReady κ)) (a : ReadyAct) : Except Fault (EventReady κ) :=
  s.bind fun s => s.stepOk other a

end EventReady

end Coroutine
