import Coroutine.Spec.ConfigLookup

/-!
# Configuration variables with their listeners (`config.h`, `config.cc`)

One thread looks variables up, sets them, adds and removes listeners and loads documents. The types
that `ConfigVar` is instantiated at are those of `τ`, with the values of each; each has a counter
`s_fun_id` of its own. Listeners do not throw; a listener is its key in `m_cbs`, and the keys are
numbers, since `s_fun_id` does not come to `2^64`. A pointer to a variable is the name and the type
it was looked up with. What each listener was told, and the value when it was added, are not in the
source.
-/

namespace Coroutine

/-- `ConfigVar<T>`, with the keys of the listeners in their order. -/
structure ListenedVar (α : Type) where
  m_val : α
  m_cbs : List ℕ := []
  told : ℕ → List (α × α) := fun _ => []
  since : ℕ → α := fun _ => m_val

namespace ListenedVar

variable {α : Type}

/-- `setValue`. -/
def setValue [DecidableEq α] (x : ListenedVar α) (v : α) : ListenedVar α :=
  if v = x.m_val then x
  else
    { x with
      m_val := v
      told := fun key => if key ∈ x.m_cbs then x.told key ++ [(x.m_val, v)] else x.told key }

/-- `addListener`, with the key that it returns. -/
def addListener (x : ListenedVar α) (key : ℕ) : ListenedVar α :=
  { x with
    m_cbs := x.m_cbs ++ [key]
    told := Function.update x.told key []
    since := Function.update x.since key x.m_val }

/-- `delListener`. -/
def delListener (x : ListenedVar α) (key : ℕ) : ListenedVar α :=
  { x with m_cbs := x.m_cbs.erase key }

/-- `clearListener`. -/
def clearListener (x : ListenedVar α) : ListenedVar α := { x with m_cbs := [] }

end ListenedVar

/-- `ConfigVarBase`: a variable of some type. -/
abbrev AnyVar {τ : Type} (Val : τ → Type) := Σ t, ListenedVar (Val t)

/-- The conversions from strings, which may throw, and `<<` on a node. -/
structure ConfigEnv {τ : Type} (Val : τ → Type) where
  FromStr : ∀ t, String → Except String (Val t)
  emit : YamlNode → String

/-- The variables, and the last key given to a listener of a variable of each type. -/
structure ConfigStore {τ : Type} (Val : τ → Type) where
  vars : ConfigVarMap (AnyVar Val)
  s_fun_id : τ → ℕ

/-- A call: `Lookup`, a call by a pointer that `Lookup` has returned, or `LoadFromYaml`. -/
inductive ConfigCall {τ : Type} (Val : τ → Type) where
  | Lookup (t : τ) (name : String) (default_value : Val t)
  | setValue (t : τ) (name : String) (v : Val t)
  | addListener (t : τ) (name : String)
  | delListener (t : τ) (name : String) (key : ℕ)
  | clearListener (t : τ) (name : String)
  | LoadFromYaml (root : YamlNode)

namespace ConfigStore

variable {τ : Type} [DecidableEq τ] {Val : τ → Type} [∀ t, DecidableEq (Val t)]

/-- Nothing is registered. -/
def init : ConfigStore Val := { vars := { datas := fun _ => none }, s_fun_id := fun _ => 0 }

/-- `fromString`: what the conversion throws is caught. -/
def fromString (env : ConfigEnv Val) (x : AnyVar Val) (val : String) : AnyVar Val :=
  match env.FromStr x.1 val with
  | .error _ => x
  | .ok v => ⟨x.1, x.2.setValue v⟩

/-- The variable of this name, if it is of type `t`. -/
def pointer (s : ConfigStore Val) (t : τ) (name : String) : Option (ListenedVar (Val t)) :=
  match s.vars.datas name with
  | none => none
  | some x => if h : x.1 = t then some (h ▸ x.2) else none

/-- A call by a pointer. -/
def onVar (s : ConfigStore Val) (t : τ) (name : String)
    (f : ListenedVar (Val t) → ListenedVar (Val t)) : ConfigStore Val :=
  match s.pointer t name with
  | none => s
  | some x =>
    { s with vars := { s.vars with datas := Function.update s.vars.datas name (some ⟨t, f x⟩) } }

/-- One call. -/
def step (env : ConfigEnv Val) (s : ConfigStore Val) : ConfigCall Val → ConfigStore Val
  | .Lookup t name default_value =>
    { s with
      vars := s.vars.lookupStep
        { name := name
          var := ⟨t, { m_val := default_value }⟩
          ofType := fun x => decide (x.1 = t) } }
  | .setValue t name v => s.onVar t name (·.setValue v)
  | .addListener t name =>
    if (s.pointer t name).isSome then
      { s.onVar t name (·.addListener (s.s_fun_id t + 1)) with
        s_fun_id := Function.update s.s_fun_id t (s.s_fun_id t + 1) }
    else s
  | .delListener t name key => s.onVar t name (·.delListener key)
  | .clearListener t name => s.onVar t name (·.clearListener)
  | .LoadFromYaml root =>
    { s with vars := s.vars.LoadFromYaml (fromString env) env.emit root }

end ConfigStore

/-! ## What it is for -/

/-- A table of values, each of the type that its name was given first. -/
abbrev ConfigTable {τ : Type} (Val : τ → Type) := String → Option (Σ t, Val t)

namespace ConfigTable

variable {τ : Type} [DecidableEq τ] {Val : τ → Type}

/-- A new name is given a value, if it may be one. -/
def define (m : ConfigTable Val) (name : String) (v : Σ t, Val t) : ConfigTable Val := fun n =>
  if n = name ∧ m n = none ∧ ConfigVarMap.LookupAdmitted name then some v else m n

/-- A value of the type that the name has is assigned. -/
def assign (m : ConfigTable Val) (name : String) (v : Σ t, Val t) : ConfigTable Val := fun n =>
  if n = name then (m n).map fun w => if w.1 = v.1 then v else w else m n

/-- A text is read, as a value of the type that there is. -/
def read (env : ConfigEnv Val) (w : Σ t, Val t) (text : String) : Σ t, Val t :=
  match env.FromStr w.1 text with
  | .error _ => w
  | .ok v => ⟨w.1, v⟩

end ConfigTable

end Coroutine
