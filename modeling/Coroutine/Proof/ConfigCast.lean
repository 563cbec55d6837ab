import Coroutine.Proof.LogYaml
import Coroutine.Spec.ConfigCast

/-!
# Containers come back from their strings

* `loadItems_ok`, `decodeItems_ok`: the loops over a sequence, given the round trip of each item;
  `loadPairs_ok`, `decodePairs_ok`: the loops over a map.
* `ofSequence_roundTrips`, `ofMap_roundTrips`: so a container comes back, if the node it is written as is
  loaded as it was emitted.
* `Nested`: the types that the containers build from a scalar type, with the nodes that are emitted
  for a value.
* `setValueBy_eq`, `fromStringBy_fromString`: where `==` is equality, a variable with these conversions
  is a `StringVar` with its `setValue` and `fromString`.
* `container_round_trip`: every value of such a type comes back, and a variable that is set from its own
  string stays as it is.
-/

namespace Coroutine

open Lib YamlNode

namespace LexicalCast

variable {Load : String → Except YamlException YamlNode} {emit : YamlNode → String} {T : Type}
  {c : LexicalCast T}

/-- The string of the value, as it is and loaded and emitted again, gives an equal value. -/
def RoundTrips (Load : String → Except YamlException YamlNode) (emit : YamlNode → String)
    (c : LexicalCast T) (v : T) : Prop :=
  ∃ str n, c.toStr v = .ok str ∧ Load str = .ok n ∧
    (∃ v', c.fromStr str = .ok v' ∧ c.eq v' v) ∧ ∃ v', c.fromStr (emit n) = .ok v' ∧ c.eq v' v

/-- The node gives an equal value. -/
def Gives (emit : YamlNode → String) (c : LexicalCast T) (n : YamlNode) (v : T) : Prop :=
  ∃ v', c.fromStr (emit n) = .ok v' ∧ c.eq v' v

/-! ## Sequences -/

theorem loadItems_ok {v : List T} (h : ∀ i ∈ v, c.RoundTrips Load emit i) :
    ∃ items, c.loadItems Load v = .ok items ∧ List.Forall₂ (c.Gives emit) items v := by
  induction v with
  | nil => exact ⟨[], rfl, .nil⟩
  | cons i v ih =>
    obtain ⟨⟨str, n, hstr, hload, -, hback⟩, hrest⟩ := List.forall_mem_cons.1 h
    obtain ⟨items, hitems, hall⟩ := ih hrest
    refine ⟨n :: items, ?_, .cons hback hall⟩
    unfold loadItems at hitems ⊢
    rw [List.mapM_cons, hitems, hstr, ok_bind, hload]
    rfl

theorem decodeItems_ok {C : Container T} {items : List YamlNode} {v : List T}
    (h : List.Forall₂ (c.Gives emit) items v) : ∃ xs, List.Forall₂ c.eq xs v ∧ ∀ vec : C.Val,
      (items.map fun n => (.ok (some n) : Except YamlException (Option YamlNode))).foldlM
          (fun vec i => do .ok (C.insert vec (← c.fromStr (shown emit (← i))))) vec =
        .ok (xs.foldl C.insert vec) := by
  induction h with
  | nil => exact ⟨[], .nil, fun _ => rfl⟩
  | cons hone _ ih =>
    obtain ⟨x, hx, hxv⟩ := hone
    obtain ⟨xs, hxs, hfold⟩ := ih
    refine ⟨x :: xs, .cons hxv hxs, fun vec => ?_⟩
    rw [List.map_cons, List.foldlM_cons, ok_bind]
    unfold shown
    rw [hx]
    exact hfold _

theorem items_ofItems (items : List YamlNode) :
    (ofItems items).items = items.map fun n => .ok (some n) := by
  cases items with
  | nil => rfl
  | cons n items => exact items_sequence (n :: items)

/-- **A container that is written as a sequence comes back.** -/
theorem ofSequence_roundTrips {C : Container T} (hC : C.Lawful c.eq) {v : C.Val}
    (h : ∀ i ∈ C.toList v, c.RoundTrips Load emit i)
    (hload : ∀ items, c.loadItems Load (C.toList v) = .ok items →
      Load (emit (ofItems items)) = .ok (ofItems items)) :
    (ofSequence Load emit C c hC).RoundTrips Load emit v := by
  obtain ⟨items, hitems, hgives⟩ := loadItems_ok h
  obtain ⟨xs, hxs, hfold⟩ := decodeItems_ok (C := C) hgives
  have hnode := hload items hitems
  -- the node is loaded as it was emitted, so going through it gives the items again
  have hback : ∃ v', (ofSequence Load emit C c hC).fromStr (emit (ofItems items)) = .ok v' ∧
      C.eq v' v := by
    refine ⟨xs.foldl C.insert C.empty, ?_, hC.rebuild v xs hxs⟩
    unfold ofSequence
    simp only
    rw [hnode, ok_bind, items_ofItems]
    exact hfold C.empty
  refine ⟨emit (ofItems items), ofItems items, ?_, hnode, hback, hback⟩
  unfold ofSequence
  simp only
  rw [hitems]
  rfl

/-! ## Maps -/

theorem setPair_new {key : String} {pairs : List (String × YamlNode)} (h : key ∉ pairs.map Prod.fst)
    (value : YamlNode) : setPair key value pairs = pairs ++ [(key, value)] := by
  induction pairs with
  | nil => rfl
  | cons pair pairs ih =>
    rw [List.map_cons, List.mem_cons, not_or] at h
    unfold setPair
    rw [if_neg fun heq => h.1 heq.symm, ih h.2]
    rfl

/-- The pair has the key, and its node gives an equal value. -/
def PairGives (emit : YamlNode → String) (c : LexicalCast T) (p : String × YamlNode)
    (i : String × T) : Prop :=
  p.1 = i.1 ∧ c.Gives emit p.2 i.2

theorem loadPairs_ok {v : List (String × T)} (hkeys : (v.map Prod.fst).Nodup)
    (h : ∀ i ∈ v, c.RoundTrips Load emit i.2) :
    ∃ pairs, c.loadPairs Load v = .ok pairs ∧ List.Forall₂ (c.PairGives emit) pairs v := by
  -- from any pairs set before, without the keys that follow
  have hfrom : ∃ pairs, List.Forall₂ (c.PairGives emit) pairs v ∧
      ∀ before : List (String × YamlNode), (∀ i ∈ v, i.1 ∉ before.map Prod.fst) →
        v.foldlM (fun pairs i => do
          (.ok (setPair i.1 (← Load (← c.toStr i.2)) pairs) : Except YamlException _)) before =
          .ok (before ++ pairs) := by
    induction v with
    | nil => exact ⟨[], .nil, fun before _ => congrArg _ (List.append_nil before).symm⟩
    | cons i v ih =>
      obtain ⟨⟨str, n, hstr, hload, -, hback⟩, hrest⟩ := List.forall_mem_cons.1 h
      rw [List.map_cons, List.nodup_cons] at hkeys
      obtain ⟨pairs, hall, hfold⟩ := ih hkeys.2 hrest
      refine ⟨(i.1, n) :: pairs, .cons ⟨rfl, hback⟩ hall, fun before hbefore => ?_⟩
      obtain ⟨hone, hothers⟩ := List.forall_mem_cons.1 hbefore
      have hnext : ∀ i' ∈ v, i'.1 ∉ (before ++ [(i.1, n)]).map Prod.fst := by
        intro i' hi' hmem
        rw [List.map_append, List.mem_append] at hmem
        rcases hmem with hmem | hmem
        · exact hothers i' hi' hmem
        · have heq : i'.1 = i.1 := by simpa using hmem
          exact hkeys.1 (heq ▸ List.mem_map_of_mem hi')
      rw [List.foldlM_cons, hstr, ok_bind, hload, ok_bind, setPair_new hone, ok_bind, hfold _ hnext,
        List.append_assoc]
      rfl
  obtain ⟨pairs, hall, hfold⟩ := hfrom
  exact ⟨pairs, hfold [] fun _ _ => List.not_mem_nil, hall⟩

theorem decodePairs_ok {C : Container (String × T)} {pairs : List (String × YamlNode)}
    {v : List (String × T)} (h : List.Forall₂ (c.PairGives emit) pairs v) :
    ∃ xs, List.Forall₂ (PairEq c.eq) xs v ∧ ∀ vec : C.Val,
      pairs.foldlM (fun vec i => do
          (.ok (C.insert vec (i.1, ← c.fromStr (emit i.2))) : Except YamlException _)) vec =
        .ok (xs.foldl C.insert vec) := by
  induction h with
  | nil => exact ⟨[], .nil, fun _ => rfl⟩
  | @cons p i _ _ hone _ ih =>
    obtain ⟨hkey, x, hx, hxv⟩ := hone
    obtain ⟨xs, hxs, hfold⟩ := ih
    refine ⟨(p.1, x) :: xs, .cons ⟨hkey, hxv⟩ hxs, fun vec => ?_⟩
    rw [List.foldlM_cons, hx, ok_bind]
    exact hfold _

theorem iterate_ofPairs (pairs : List (String × YamlNode)) : (ofPairs pairs).iterate = .ok pairs := by
  cases pairs <;> rfl

/-- **A container that is written as a map comes back.** -/
theorem ofMap_roundTrips {C : Container (String × T)} (hC : C.Lawful (PairEq c.eq)) {v : C.Val}
    (hkeys : ((C.toList v).map Prod.fst).Nodup) (h : ∀ i ∈ C.toList v, c.RoundTrips Load emit i.2)
    (hload : ∀ pairs, c.loadPairs Load (C.toList v) = .ok pairs →
      Load (emit (ofPairs pairs)) = .ok (ofPairs pairs)) :
    (ofMap Load emit C c hC).RoundTrips Load emit v := by
  obtain ⟨pairs, hpairs, hgives⟩ := loadPairs_ok hkeys h
  obtain ⟨xs, hxs, hfold⟩ := decodePairs_ok (C := C) hgives
  have hnode := hload pairs hpairs
  have hback : ∃ v', (ofMap Load emit C c hC).fromStr (emit (ofPairs pairs)) = .ok v' ∧
      C.eq v' v := by
    refine ⟨xs.foldl C.insert C.empty, ?_, hC.rebuild v xs hxs⟩
    unfold ofMap
    simp only
    rw [hnode, ok_bind, iterate_ofPairs, ok_bind]
    exact hfold C.empty
  refine ⟨emit (ofPairs pairs), ofPairs pairs, ?_, hnode, hback, hback⟩
  unfold ofMap
  simp only
  rw [hpairs]
  rfl

/-! ## Nesting -/

section

variable (Load : String → Except YamlException YamlNode) (emit : YamlNode → String)

/-- The nodes emitted for a container that is written as a sequence: its own, and those of its items. -/
def SequenceNodes (c : LexicalCast T) (nodes : T → YamlNode → Prop) (v : List T) (n : YamlNode) :
    Prop :=
  (∃ items, c.loadItems Load v = .ok items ∧ n = ofItems items) ∨ ∃ i ∈ v, nodes i n

/-- The nodes emitted for a container that is written as a map. -/
def MapNodes (c : LexicalCast T) (nodes : T → YamlNode → Prop) (v : List (String × T))
    (n : YamlNode) : Prop :=
  (∃ pairs, c.loadPairs Load v = .ok pairs ∧ n = ofPairs pairs) ∨ ∃ i ∈ v, nodes i.2 n

/-- **The types that containers build from a scalar type**, with the nodes of containers that are
emitted for a value. -/
inductive Nested : ∀ {T : Type}, LexicalCast T → (T → YamlNode → Prop) → Prop
  | scalar {T : Type} {c : LexicalCast T} (h : ∀ v, c.RoundTrips Load emit v) :
      Nested c fun _ _ => False
  | vector {T : Type} {c : LexicalCast T} {nodes : T → YamlNode → Prop} (h : Nested c nodes) :
      Nested (vector Load emit c) (SequenceNodes Load c nodes)
  | list {T : Type} {c : LexicalCast T} {nodes : T → YamlNode → Prop} (h : Nested c nodes) :
      Nested (list Load emit c) (SequenceNodes Load c nodes)
  | set {T : Type} {c : LexicalCast T} {nodes : T → YamlNode → Prop} (h : Nested c nodes)
      (less : Less c.eq) :
      Nested (set Load emit c less) fun v => SequenceNodes Load c nodes v.toList
  | unordered_set {T : Type} {c : LexicalCast T} {nodes : T → YamlNode → Prop} (h : Nested c nodes)
      (p : Placement T) :
      Nested (unordered_set Load emit c p) fun v => SequenceNodes Load c nodes v.toList
  | map {T : Type} {c : LexicalCast T} {nodes : T → YamlNode → Prop} (h : Nested c nodes) :
      Nested (map Load emit c) fun v => MapNodes Load c nodes v.toList
  | unordered_map {T : Type} {c : LexicalCast T} {nodes : T → YamlNode → Prop} (h : Nested c nodes)
      (p : Placement (String × T)) :
      Nested (unordered_map Load emit c p) fun v => MapNodes Load c nodes v.toList

end

/-- One level of a sequence, over any type whose values come back. -/
theorem sequence_level {C : Container T} (hC : C.Lawful c.eq) {nodes : T → YamlNode → Prop}
    (ih : ∀ v, (∀ n, nodes v n → Load (emit n) = .ok n) → c.RoundTrips Load emit v) {v : C.Val}
    (hload : ∀ n, SequenceNodes Load c nodes (C.toList v) n → Load (emit n) = .ok n) :
    (ofSequence Load emit C c hC).RoundTrips Load emit v := by
  refine ofSequence_roundTrips hC ?_ ?_
  · exact fun i hi => ih i fun n hn => hload n (.inr ⟨i, hi, hn⟩)
  · exact fun items hitems => hload _ (.inl ⟨items, hitems, rfl⟩)

/-- One level of a map. -/
theorem map_level {C : Container (String × T)} (hC : C.Lawful (PairEq c.eq))
    {nodes : T → YamlNode → Prop}
    (ih : ∀ v, (∀ n, nodes v n → Load (emit n) = .ok n) → c.RoundTrips Load emit v) {v : C.Val}
    (hkeys : ((C.toList v).map Prod.fst).Nodup)
    (hload : ∀ n, MapNodes Load c nodes (C.toList v) n → Load (emit n) = .ok n) :
    (ofMap Load emit C c hC).RoundTrips Load emit v := by
  refine ofMap_roundTrips hC hkeys ?_ ?_
  · exact fun i hi => ih i.2 fun n hn => hload n (.inr ⟨i, hi, hn⟩)
  · exact fun pairs hpairs => hload _ (.inl ⟨pairs, hpairs, rfl⟩)

/-- **Every value of a nested type comes back**, by induction on the nesting. -/
theorem Nested.roundTrips {nodes : T → YamlNode → Prop} (h : Nested Load emit c nodes) (v : T)
    (hload : ∀ n, nodes v n → Load (emit n) = .ok n) : c.RoundTrips Load emit v := by
  induction h with
  | scalar h => exact h v
  | vector _ ih => exact sequence_level _ ih hload
  | list _ ih => exact sequence_level _ ih hload
  | set _ less ih => exact sequence_level _ ih hload
  | unordered_set _ p ih => exact sequence_level _ ih hload
  | map _ ih => exact map_level _ ih (sorted_keys_nodup v) hload
  | unordered_map _ p ih => exact map_level _ ih (distinct_keys_nodup v) hload

end LexicalCast

namespace StringVar

/-- A value equal to the one it has leaves a variable alone. -/
theorem fromStringBy_eq {T : Type} {c : LexicalCast T} {var : StringVar T} {str : String} {v : T}
    (hstr : c.fromStr str = .ok v) (h : c.eq v var.m_val) :
    var.fromStringBy c str = { var := var, called := 0, thrown := false, result := false } := by
  unfold fromStringBy setValueBy
  rw [hstr]
  simp only [h, if_true]

/-- On a type whose `==` is equality this is `setValue`. -/
theorem setValueBy_eq {T : Type} [DecidableEq T] {c : LexicalCast T} (hc : ∀ a b, c.eq a b ↔ a = b)
    (var : StringVar T) (v : T) : var.setValueBy c v = var.setValue v := by
  unfold setValueBy setValue
  simp only [hc]

theorem fromStringBy_fromString {T : Type} [DecidableEq T] {c : LexicalCast T}
    (hc : ∀ a b, c.eq a b ↔ a = b) (var : StringVar T) (val : String) :
    var.fromStringBy c val = var.fromString c.fromStr val := by
  unfold fromStringBy fromString
  cases c.fromStr val with
  | error e => rfl
  | ok v => simp only [setValueBy_eq hc]

end StringVar

/-- **Containers come back from their strings.** For every type that the containers build from a type whose
values come back, and every value: its string converts to an equal value, if the nodes emitted for it
are loaded as they were; and a variable of that value is unchanged by its own string, and no listener is
called. -/
theorem container_round_trip {Load : String → Except YamlException YamlNode}
    {emit : YamlNode → String} {T : Type} {c : LexicalCast T} {nodes : T → YamlNode → Prop}
    (h : c.Nested Load emit nodes) (v : T) (hload : ∀ n, nodes v n → Load (emit n) = .ok n) :
    (∃ str v', c.toStr v = .ok str ∧ c.fromStr str = .ok v' ∧ c.eq v' v) ∧
      ∀ var : StringVar T, var.m_val = v → var.fromStringBy c (var.toString c) =
        { var := var, called := 0, thrown := false, result := false } := by
  obtain ⟨str, n, hstr, -, ⟨v', hv', heq⟩, -⟩ := h.roundTrips v hload
  refine ⟨⟨str, v', hstr, hv', heq⟩, fun var hvar => ?_⟩
  subst hvar
  have htext : var.toString c = str := by
    unfold StringVar.toString
    rw [hstr]
  rw [htext]
  exact StringVar.fromStringBy_eq hv' heq

/-! ## A map of lists of `bool` -/

namespace LexicalCast

/-- `bool`. -/
def bool : LexicalCast Bool where
  eq := (· = ·)
  decEq := inferInstance
  equiv := eq_equivalence
  toStr b := .ok (if b then "1" else "0")
  fromStr str := if str = "1" then .ok true else if str = "0" then .ok false else .error .badConversion

/-- What yaml-cpp loads of these texts. -/
def loadBools (str : String) : Except YamlException YamlNode :=
  if str = "- 1" then .ok (.sequence [.scalar "1"])
  else if str = "a:\n  - 1" then .ok (.map [("a", .sequence [.scalar "1"])])
  else .ok (.scalar str)

/-- And what it emits for those nodes. -/
def emitBools : YamlNode → String
  | .scalar text => text
  | .sequence _ => "- 1"
  | .map _ => "a:\n  - 1"
  | .null => "~"

theorem bool_roundTrips (b : Bool) : bool.RoundTrips loadBools emitBools b := by
  cases b
  · exact ⟨"0", .scalar "0", rfl, rfl, ⟨false, rfl, rfl⟩, ⟨false, rfl, rfl⟩⟩
  · exact ⟨"1", .scalar "1", rfl, rfl, ⟨true, rfl, rfl⟩, ⟨true, rfl, rfl⟩⟩

/-- The map with the list of `true` at `a`. -/
def oneList {r : String × List Bool → String × List Bool → Prop} : SortedList r :=
  ⟨[("a", [true])], List.pairwise_singleton _ _⟩

end LexicalCast

open LexicalCast in
theorem container_round_trip_map :
    ∃ str v', (map loadBools emitBools (list loadBools emitBools bool)).toStr oneList = .ok str ∧
      (map loadBools emitBools (list loadBools emitBools bool)).fromStr str = .ok v' ∧
      (map loadBools emitBools (list loadBools emitBools bool)).eq v' oneList := by
  refine (container_round_trip (.map (.list (.scalar bool_roundTrips))) oneList ?_).1
  rintro n (⟨pairs, hpairs, rfl⟩ | ⟨i, hi, hn⟩)
  · have hone : loadPairs loadBools (list loadBools emitBools bool) [("a", [true])] =
        .ok [("a", .sequence [.scalar "1"])] := rfl
    cases hone.symm.trans hpairs
    rfl
  · rw [List.mem_singleton.1 hi] at hn
    rcases hn with ⟨items, hitems, rfl⟩ | ⟨_, _, hnone⟩
    · have hone : loadItems loadBools bool [true] = .ok [.scalar "1"] := rfl
      rw [hone] at hitems
      cases hitems
      rfl
    · exact absurd hnone id

end Coroutine
