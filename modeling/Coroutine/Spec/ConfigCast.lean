import Coroutine.Lib.Container
import Coroutine.Spec.ConfigString
import Coroutine.Spec.LogYaml
import Mathlib.Data.String.Basic

/-!
# `LexicalCast` of containers (`config.h`)

Each container is encoded element by element: the string of an element is loaded, and the node goes
into that of the container. The decoders emit the children of a node and convert the texts. The four
sequences are one pair of conversions, and the two maps another; they differ in what the container
does with an element it is given. `emit` is `<<` on a node, also of one that is not defined, of which
it writes nothing; a failed `boost::lexical_cast` counts as `badConversion`.
-/

namespace Coroutine

open Lib YamlNode

/-- A type with its `==` and its two `LexicalCast` classes. -/
structure LexicalCast (T : Type) where
  eq : T → T → Prop
  decEq : DecidableRel eq
  equiv : Equivalence eq
  toStr : T → Except YamlException String
  fromStr : String → Except YamlException T

attribute [instance] LexicalCast.decEq

namespace YamlNode

/-- A node after `push_back` of the items; without any it is null. -/
def ofItems (items : List YamlNode) : YamlNode := if items.isEmpty then .null else .sequence items

/-- `node[key] = value`, for a node with these pairs. -/
def setPair (key : String) (value : YamlNode) : List (String × YamlNode) → List (String × YamlNode)
  | [] => [(key, value)]
  | (key', value') :: pairs =>
    if key' = key then (key, value) :: pairs else (key', value') :: setPair key value pairs

/-- From `begin()` to `end()`, with `first.Scalar()` of each; an item of a sequence has no `first`. -/
def iterate : YamlNode → Except YamlException (List (String × YamlNode))
  | .map pairs => .ok pairs
  | .sequence (_ :: _) => .error .invalidNode
  | _ => .ok []

/-- `ss << node`. -/
def shown (emit : YamlNode → String) : Option YamlNode → String
  | some n => emit n
  | none => ""

end YamlNode

namespace LexicalCast

variable (Load : String → Except YamlException YamlNode) (emit : YamlNode → String) {T : Type}

/-- The nodes that the loop of a sequence's encoder pushes. -/
def loadItems (c : LexicalCast T) (v : List T) : Except YamlException (List YamlNode) :=
  v.mapM fun i => do Load (← c.toStr i)

/-- The pairs that the loop of a map's encoder sets. -/
def loadPairs (c : LexicalCast T) (v : List (String × T)) :
    Except YamlException (List (String × YamlNode)) :=
  v.foldlM (fun pairs i => do .ok (setPair i.1 (← Load (← c.toStr i.2)) pairs)) []

/-- Both conversions of a container that is written as a sequence. -/
def ofSequence (C : Container T) (c : LexicalCast T) (hC : C.Lawful c.eq) : LexicalCast C.Val where
  eq := C.eq
  decEq := C.decEq
  equiv := hC.equiv
  toStr v := do .ok (emit (ofItems (← c.loadItems Load (C.toList v))))
  fromStr v := do
    let node ← Load v
    node.items.foldlM (fun vec i => do .ok (C.insert vec (← c.fromStr (shown emit (← i))))) C.empty

/-- Both conversions of a container that is written as a map. -/
def ofMap (C : Container (String × T)) (c : LexicalCast T) (hC : C.Lawful (PairEq c.eq)) :
    LexicalCast C.Val where
  eq := C.eq
  decEq := C.decEq
  equiv := hC.equiv
  toStr v := do .ok (emit (.ofPairs (← c.loadPairs Load (C.toList v))))
  fromStr v := do
    let node ← Load v
    (← node.iterate).foldlM (fun vec i => do .ok (C.insert vec (i.1, ← c.fromStr (emit i.2)))) C.empty

/-- `std::vector<T>`. -/
def vector (c : LexicalCast T) : LexicalCast (List T) :=
  ofSequence Load emit (Container.list c.eq) c (Container.list_lawful c.equiv)

/-- `std::list<T>`. -/
def list (c : LexicalCast T) : LexicalCast (List T) :=
  ofSequence Load emit (Container.list c.eq) c (Container.list_lawful c.equiv)

/-- `std::set<T>`, where `less` is the `<` of `T`. -/
def set (c : LexicalCast T) (less : Less c.eq) : LexicalCast (SortedList less.lt) :=
  ofSequence Load emit (Container.sorted c.eq less) c (Container.sorted_lawful c.equiv)

/-- `std::unordered_set<T>`; where it places its elements, which its hash decides, is a parameter. -/
def unordered_set (c : LexicalCast T) (p : Placement T) :
    LexicalCast (DistinctList (Key.self c.equiv).same) :=
  ofSequence Load emit (Container.hashed c.eq (Key.self c.equiv) p) c
    (Container.hashed_lawful c.equiv)

/-- `std::map<std::string, T>`. -/
def map (c : LexicalCast T) : LexicalCast (SortedList (Less.byKey c.eq (· < · : String → _)).lt) :=
  ofMap Load emit (Container.sorted (PairEq c.eq) (Less.byKey c.eq (· < ·))) c
    (Container.sorted_lawful (pairEq_equiv c.equiv))

/-- `std::unordered_map<std::string, T>`. -/
def unordered_map (c : LexicalCast T) (p : Placement (String × T)) :
    LexicalCast (DistinctList (@Key.byKey T String c.eq _).same) :=
  ofMap Load emit (Container.hashed (PairEq c.eq) (Key.byKey c.eq) p) c
    (Container.hashed_lawful (pairEq_equiv c.equiv))

end LexicalCast

/-! ## `ConfigVar` -/

namespace StringVar

variable {T : Type} (c : LexicalCast T) (var : StringVar T)

/-- `toString`. -/
def toString : String :=
  match c.toStr var.m_val with
  | .ok str => str
  | .error _ => ""

/-- `setValue`, with the `==` of the type. -/
def setValueBy (v : T) : SetResult T :=
  if c.eq v var.m_val then { var := var, called := 0, thrown := false }
  else
    let (called, thrown) := callAll var.m_val v var.m_cbs
    if thrown then { var := var, called := called, thrown := true }
    else { var := { var with m_val := v }, called := called, thrown := false }

/-- `fromString`. -/
def fromStringBy (val : String) : FromStringResult T :=
  match c.fromStr val with
  | .error _ => { var := var, called := 0, thrown := false, result := false }
  | .ok v =>
    let r := var.setValueBy c v
    { var := r.var, called := r.called, thrown := r.thrown, result := false }

end StringVar

end Coroutine
