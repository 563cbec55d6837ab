import Mathlib.Data.List.Basic

/-!
# YAML nodes

The part of `YAML::Node` that the code uses, for trees whose map keys are scalars. A key may come
twice; a lookup finds the first. What is emitted and loaded is a parameter where it matters.
-/

namespace Coroutine

/-- `YAML::Node`, of a document without aliases. -/
inductive YamlNode where
  | null
  | scalar (text : String)
  | sequence (items : List YamlNode)
  | map (pairs : List (String × YamlNode))

/-- What `YAML::Load`, an `operator[]` or `as` throws, and `std::logic_error`. -/
inductive YamlException where
  | parser
  | badSubscript
  | badConversion
  | invalidNode
  | logic_error (what : String)
  deriving DecidableEq, Repr

namespace YamlNode

/-- A node that `operator[]` has set the keys of; without any it is null. -/
def ofPairs (pairs : List (String × YamlNode)) : YamlNode :=
  if pairs.isEmpty then .null else .map pairs

/-- `operator[]` with a string: a node that is not defined, unless a map has the key. -/
def get (n : YamlNode) (key : String) : Except YamlException (Option YamlNode) :=
  match n with
  | .map pairs => .ok (pairs.lookup key)
  | .scalar _ => .error .badSubscript
  | _ => .ok none

/-- `size()`. -/
def size : YamlNode → ℕ
  | .sequence items => items.length
  | .map pairs => pairs.length
  | _ => 0

/-- `operator[]` with an index: an item of a sequence, or the value of a map at that key. -/
def item (n : YamlNode) (x : ℕ) : Except YamlException (Option YamlNode) :=
  match n with
  | .sequence items => .ok items[x]?
  | n => n.get (toString x)

/-- `as<std::string>()`. -/
def asString : Option YamlNode → Except YamlException String
  | some (.scalar text) => .ok text
  | some _ => .error .badConversion
  | none => .error .invalidNode

end YamlNode

end Coroutine
