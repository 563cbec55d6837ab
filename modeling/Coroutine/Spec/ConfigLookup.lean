import Coroutine.Spec.ConfigLoad

/-!
# `Config::Lookup` (`config.h`)

The function that registers a variable. What `dynamic_pointer_cast` to `ConfigVar<T>` says of a
registered variable is a parameter, and so is the new `ConfigVar<T>`, which a caller gives by its
default value and its description.
-/

namespace Coroutine

/-- `std::invalid_argument`, of the name. -/
structure InvalidArgument where
  what : String
  deriving DecidableEq, Repr

/-- A call of `Lookup`: the name, the variable to make, and which variables are of its type. -/
structure LookupCall (ν : Type) where
  name : String
  var : ν
  ofType : ν → Bool

namespace ConfigVarMap

variable {ν : Type}

/-- The characters of a name, as `Lookup` has them. -/
def lookupChars : List Char := "abcdefghigklmnopqrstuvwxyz._012345678".toList

/-- `name.find_first_not_of(...)` finds nothing. -/
def LookupAdmitted (name : String) : Prop := ∀ c ∈ name.toList, c ∈ lookupChars

instance (name : String) : Decidable (LookupAdmitted name) :=
  List.decidableBAll (· ∈ lookupChars) name.toList

/-- `Lookup`, with the registry after it and the variable it returns. -/
def Lookup (s : ConfigVarMap ν) (call : LookupCall ν) :
    Except InvalidArgument (ConfigVarMap ν × Option ν) :=
  match s.datas call.name with
  | some var => if call.ofType var then .ok (s, some var) else .ok (s, none)
  | none =>
    if ¬ LookupAdmitted call.name then .error { what := call.name }
    else .ok ({ s with datas := Function.update s.datas call.name (some call.var) }, some call.var)

/-- A call whose exception, if it throws, is caught. -/
def lookupStep (s : ConfigVarMap ν) (call : LookupCall ν) : ConfigVarMap ν :=
  match s.Lookup call with
  | .ok (s', _) => s'
  | .error _ => s

end ConfigVarMap

end Coroutine
