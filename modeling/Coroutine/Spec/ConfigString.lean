import Mathlib.Data.List.Basic

/-!
# `ConfigVar::fromString` (`config.h`)

One thread sets a variable from a string. The conversion may throw, and so may each listener;
what is thrown is a `std::exception`. `m_cbs` holds the listeners in the order of their keys. The
number of listeners that were called is not in the source.
-/

namespace Coroutine

/-- `on_change_cb`, as far as it throws when it is called with an old and a new value; an empty
function always does. -/
abbrev OnChangeCb (α : Type) := α → α → Bool

/-- `ConfigVar<T>`. -/
structure StringVar (α : Type) where
  m_val : α
  m_cbs : List (OnChangeCb α)

/-- How a call of `setValue` ends: the variable, the number of listeners that were called, and
whether the last of them threw. -/
structure SetResult (α : Type) where
  var : StringVar α
  called : ℕ
  thrown : Bool

/-- How a call of `fromString` ends. -/
structure FromStringResult (α : Type) where
  var : StringVar α
  called : ℕ
  thrown : Bool
  result : Bool

namespace StringVar

variable {α ε : Type} [DecidableEq α]

/-- The loop over `m_cbs`: the number of listeners called, and whether the last one threw. -/
def callAll (m_val v : α) : List (OnChangeCb α) → ℕ × Bool
  | [] => (0, false)
  | cb :: cbs =>
    if cb m_val v then (1, true)
    else ((callAll m_val v cbs).1 + 1, (callAll m_val v cbs).2)

/-- `setValue`. -/
def setValue (c : StringVar α) (v : α) : SetResult α :=
  if v = c.m_val then { var := c, called := 0, thrown := false }
  else
    let (called, thrown) := callAll c.m_val v c.m_cbs
    if thrown then { var := c, called := called, thrown := true }
    else { var := { c with m_val := v }, called := called, thrown := false }

/-- `fromString`, with `FromStr` the conversion. -/
def fromString (FromStr : String → Except ε α) (c : StringVar α) (val : String) :
    FromStringResult α :=
  match FromStr val with
  | .error _ => { var := c, called := 0, thrown := false, result := false }
  | .ok v =>
    let r := c.setValue v
    { var := r.var, called := r.called, thrown := r.thrown, result := false }

end StringVar

end Coroutine
