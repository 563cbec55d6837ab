import Coroutine.Spec.Yaml
import Mathlib.Data.Nat.Notation
import Mathlib.Logic.Function.Basic

/-!
# `Config::LoadFromYaml` (`config.cc`)

The tree is flattened into pairs of a dotted name and a node, and each pair whose name is
registered is handed to the variable. A variable is a value of any type with its `fromString`,
which has no effect on others; what `<<` makes of a node is a parameter. The log of the calls is
not in the source.
-/

namespace Coroutine

/-- `GetDatas()`, and the calls of `fromString` with the name of the variable and the argument. -/
structure ConfigVarMap (ν : Type) where
  datas : String → Option ν
  calls : List (String × String) := []

namespace ConfigVarMap

variable {ν : Type}

/-- The characters of a name. -/
def admitted : List Char := "abcdefghijklmnopqrstuvwxyz._012345678".toList

/-- `prefix.find_first_not_of(...)` finds nothing. -/
def Admitted (name : String) : Prop := ∀ c ∈ name.toList, c ∈ admitted

instance (name : String) : Decidable (Admitted name) :=
  List.decidableBAll (· ∈ admitted) name.toList

/-- The name of the member `key` of what `name` names. -/
def memberName (name key : String) : String := if name = "" then key else name ++ "." ++ key

mutual

/-- `ListAllMember`. -/
def ListAllMember (name : String) : YamlNode → List (String × YamlNode)
  | .map pairs =>
    if ¬ Admitted name then [] else (name, .map pairs) :: ListMembers name pairs
  | node => if ¬ Admitted name then [] else [(name, node)]

/-- The loop over the pairs of a map. -/
def ListMembers (name : String) : List (String × YamlNode) → List (String × YamlNode)
  | [] => []
  | (key, value) :: pairs => ListAllMember (memberName name key) value ++ ListMembers name pairs

end

/-- `LookupBase`. -/
def LookupBase (s : ConfigVarMap ν) (name : String) : Option ν := s.datas name

/-- What `fromString` gets of a node. -/
def nodeText (emit : YamlNode → String) : YamlNode → String
  | .scalar text => text
  | node => emit node

/-- `LoadFromYaml`, for one of `all_nodes`. -/
def loadNode (fromString : ν → String → ν) (emit : YamlNode → String) (s : ConfigVarMap ν)
    (i : String × YamlNode) : ConfigVarMap ν :=
  if i.1 = "" then s
  else
    let key := String.ofList (i.1.toList.map Char.toLower)
    match s.LookupBase key with
    | none => s
    | some var =>
      { datas := Function.update s.datas key (some (fromString var (nodeText emit i.2)))
        calls := s.calls ++ [(key, nodeText emit i.2)] }

/-- `LoadFromYaml`. -/
def LoadFromYaml (fromString : ν → String → ν) (emit : YamlNode → String) (s : ConfigVarMap ν)
    (root : YamlNode) : ConfigVarMap ν :=
  (ListAllMember "" root).foldl (loadNode fromString emit) s

end ConfigVarMap

end Coroutine
