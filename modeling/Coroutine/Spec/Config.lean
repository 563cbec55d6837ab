import Mathlib.Data.Finset.Basic

/-!
# Setting a `ConfigVar` (`config.h`)

`setValue` compares and notifies under the read lock and assigns under the write lock. The
threads of `T` run the two sections of their calls in any order; a listener is its key in
`m_cbs`. Kept beside the variable are the notifications each listener has had, which are not
in the source.
-/

namespace Coroutine

/-- `ConfigVar<T>`: the value, and the keys of its listeners. -/
structure ConfigVar (α : Type) where
  m_val : α
  m_cbs : Finset UInt64

/-- `ConfigVar::getValue`. -/
def ConfigVar.getValue {α : Type} (c : ConfigVar α) : α := c.m_val

/-- A variable while threads set it: the value that a thread has notified and not yet assigned,
and each listener's notifications, as pairs of `old_value` and `new_value`. -/
structure ConfigThreads (T α : Type) where
  var : ConfigVar α
  notified : T → Option α
  heard : UInt64 → List (α × α)

/-- A section of a call of `setValue`. -/
inductive SetSection (T α : Type) where
  | notify (th : T) (v : α)
  | assign (th : T)
  deriving DecidableEq

namespace ConfigThreads

variable {T α : Type} [DecidableEq T] [DecidableEq α]

/-- A variable that nobody has set. -/
def init (default_value : α) (m_cbs : Finset UInt64) : ConfigThreads T α :=
  { var := { m_val := default_value, m_cbs := m_cbs }, notified := fun _ => none, heard := fun _ => [] }

/-- The read-locked section of `setValue(v)`: an equal value ends the call. -/
def notify (s : ConfigThreads T α) (th : T) (v : α) : ConfigThreads T α :=
  if v = s.var.m_val then s
  else
    { s with
      notified := fun u => if u = th then some v else s.notified u
      heard := fun i => if i ∈ s.var.m_cbs then s.heard i ++ [(s.var.m_val, v)] else s.heard i }

/-- The write-locked section. -/
def assign (s : ConfigThreads T α) (th : T) (v : α) : ConfigThreads T α :=
  { s with
    var := { s.var with m_val := v }
    notified := fun u => if u = th then none else s.notified u }

/-- One section; a thread calls `setValue` again only after its last call has returned. -/
def step (s : ConfigThreads T α) : SetSection T α → ConfigThreads T α
  | .notify th v => if s.notified th = none then s.notify th v else s
  | .assign th =>
    match s.notified th with
    | none => s
    | some v => s.assign th v

end ConfigThreads

end Coroutine
