import Coroutine.Spec.ConfigLoad
import Coroutine.Spec.ConfigString
import Mathlib.Data.List.Basic

/-!
# `LoadFromYaml` updates what the tree names

* `members`: every node of a tree that maps lead to, with its keys, in document order.
* `listAllMember_eq`: cutting a subtree off at a name that is not admitted leaves the same pairs
  as filtering the names of all members, since a longer name is not admitted either.
* `load_exact`: so `LoadFromYaml` calls `fromString` once for each member whose name is not empty,
  admitted and registered, and a variable has gone through the calls with its name alone.
* `load_converted`: with `ConfigVar::fromString` for it, a variable has been assigned those of its
  own texts that can be converted, whatever becomes of the others.
-/

namespace Coroutine

namespace YamlNode

mutual

/-- **The members of a tree**, with the keys that lead to each, in document order. -/
def members : YamlNode → List (List String × YamlNode)
  | .map pairs => ([], .map pairs) :: pairMembers pairs
  | node => [([], node)]

/-- The members below the pairs of a map. -/
def pairMembers : List (String × YamlNode) → List (List String × YamlNode)
  | [] => []
  | (key, value) :: pairs => (members value).map (fun m => (key :: m.1, m.2)) ++ pairMembers pairs

end

end YamlNode

namespace ConfigVarMap

open YamlNode

variable {ν : Type}

/-- The keys of a path joined with dots, after `name`; an empty name adds no dot. -/
def dotJoin (name : String) (keys : List String) : String := keys.foldl memberName name

/-! ## Names -/

theorem admitted_empty : Admitted "" := by
  intro c hc
  exact absurd hc List.not_mem_nil

/-- A name that is not admitted stays so when it gets longer. -/
theorem memberName_not_admitted {name : String} (h : ¬ Admitted name) (key : String) :
    ¬ Admitted (memberName name key) := by
  have hne : name ≠ "" := by
    rintro rfl
    exact h admitted_empty
  intro hall
  refine h fun c hc => hall c ?_
  unfold memberName
  rw [if_neg hne, String.toList_append, String.toList_append]
  simp [hc]

theorem dotJoin_not_admitted {name : String} (h : ¬ Admitted name) (keys : List String) :
    ¬ Admitted (dotJoin name keys) := by
  induction keys generalizing name with
  | nil => exact h
  | cons key keys ih => exact ih (memberName_not_admitted h key)

/-- `::tolower` changes no admitted character. -/
theorem toLower_admitted {c : Char} (h : c ∈ admitted) : c.toLower = c := by
  have hall : admitted.all (fun c => c.toLower = c) = true := by decide
  exact of_decide_eq_true (List.all_eq_true.1 hall c h)

theorem toLower_name {name : String} (h : Admitted name) :
    String.ofList (name.toList.map Char.toLower) = name := by
  have hmap : name.toList.map Char.toLower = name.toList.map id :=
    List.map_congr_left fun c hc => toLower_admitted (h c hc)
  rw [List.map_id] at hmap
  rw [hmap, String.ofList_toList]

/-! ## Flattening -/

/-- A member with the name its keys make after `name`. -/
def named (name : String) (m : List String × YamlNode) : String × YamlNode := (dotJoin name m.1, m.2)

/-- Below a name that is not admitted nothing is. -/
theorem filter_named_not_admitted {name : String} (h : ¬ Admitted name)
    (ms : List (List String × YamlNode)) :
    (ms.map (named name)).filter (fun i => Admitted i.1) = [] := by
  rw [List.filter_eq_nil_iff]
  intro i hi
  obtain ⟨m, -, rfl⟩ := List.mem_map.1 hi
  have hname : ¬ Admitted (named name m).1 := dotJoin_not_admitted h m.1
  simpa using hname

mutual

/-- **Cutting off is filtering.** -/
theorem listAllMember_eq (name : String) : ∀ n : YamlNode,
    ListAllMember name n = ((members n).map (named name)).filter fun i => Admitted i.1
  | .map pairs => by
    by_cases h : Admitted name
    · have hrest := listMembers_eq name pairs
      have hself : Admitted (named name ([], .map pairs)).1 := h
      rw [ListAllMember, members, List.map_cons, List.filter_cons_of_pos (by simpa using hself),
        ← hrest, if_neg (not_not.2 h)]
      rfl
    · rw [ListAllMember, if_pos h, filter_named_not_admitted h]
  | .null => by
    by_cases h : Admitted name <;> simp [ListAllMember, members, named, dotJoin, h]
  | .scalar text => by
    by_cases h : Admitted name <;> simp [ListAllMember, members, named, dotJoin, h]
  | .sequence items => by
    by_cases h : Admitted name <;> simp [ListAllMember, members, named, dotJoin, h]

theorem listMembers_eq (name : String) : ∀ pairs : List (String × YamlNode),
    ListMembers name pairs = ((pairMembers pairs).map (named name)).filter fun i => Admitted i.1
  | [] => rfl
  | (key, value) :: pairs => by
    have hvalue := listAllMember_eq (memberName name key) value
    have hpairs := listMembers_eq name pairs
    rw [ListMembers, pairMembers, List.map_append, List.filter_append, List.map_map, hvalue, hpairs]
    rfl

end

/-! ## The calls -/

variable {fromString : ν → String → ν} {emit : YamlNode → String}

/-- The name is one that `LoadFromYaml` looks up and finds. -/
def Loads (s : ConfigVarMap ν) (name : String) : Prop := name ≠ "" ∧ (s.datas name).isSome

instance (s : ConfigVarMap ν) (name : String) : Decidable (s.Loads name) :=
  inferInstanceAs (Decidable (_ ∧ _))

/-- **One pair** of an admitted name. -/
theorem loadNode_eq (s : ConfigVarMap ν) {i : String × YamlNode} (h : Admitted i.1) :
    loadNode fromString emit s i =
      if s.Loads i.1 then
        { datas := Function.update s.datas i.1
            ((s.datas i.1).map fun var => fromString var (nodeText emit i.2))
          calls := s.calls ++ [(i.1, nodeText emit i.2)] }
      else s := by
  unfold loadNode Loads LookupBase
  by_cases hempty : i.1 = ""
  · simp [hempty]
  · rw [if_neg hempty, toLower_name h]
    dsimp only
    split
    · rename_i hnone
      simp [hnone]
    · rename_i var hvar
      simp [hvar, hempty]

/-- A pair registers nothing. -/
theorem loadNode_loads (s : ConfigVarMap ν) {i : String × YamlNode} (h : Admitted i.1)
    (name : String) : (loadNode fromString emit s i).Loads name ↔ s.Loads name := by
  rw [loadNode_eq s h]
  by_cases hload : s.Loads i.1
  · rw [if_pos hload]
    unfold Loads
    by_cases hname : name = i.1
    · simp [hname]
    · simp [Function.update_of_ne hname]
  · rw [if_neg hload]

/-- The calls a list of pairs makes. -/
def callsOf (emit : YamlNode → String) (s : ConfigVarMap ν) (is : List (String × YamlNode)) :
    List (String × String) :=
  (is.filter fun i => s.Loads i.1).map fun i => (i.1, nodeText emit i.2)

/-- **All pairs**: the calls in order, and each variable through its own. -/
theorem loadNodes_eq (is : List (String × YamlNode)) (hall : ∀ i ∈ is, Admitted i.1)
    (s : ConfigVarMap ν) :
    (is.foldl (loadNode fromString emit) s).calls = s.calls ++ callsOf emit s is ∧
      ∀ name, (is.foldl (loadNode fromString emit) s).datas name =
        (s.datas name).map fun var =>
          (((callsOf emit s is).filter fun call => call.1 = name).map (·.2)).foldl fromString var := by
  induction is generalizing s with
  | nil => simp [callsOf]
  | cons i is ih =>
    obtain ⟨hone, hrest⟩ := List.forall_mem_cons.1 hall
    obtain ⟨hcalls, hdatas⟩ := ih hrest (loadNode fromString emit s i)
    have hsame : callsOf emit (loadNode fromString emit s i) is = callsOf emit s is := by
      unfold callsOf
      simp only [loadNode_loads s hone]
    rw [hsame] at hcalls hdatas
    rw [List.foldl_cons, hcalls]
    by_cases hload : s.Loads i.1
    · have hcons : callsOf emit s (i :: is) = (i.1, nodeText emit i.2) :: callsOf emit s is := by
        unfold callsOf
        rw [List.filter_cons_of_pos (by simpa using hload), List.map_cons]
      rw [hcons]
      refine ⟨by rw [loadNode_eq s hone, if_pos hload, List.append_assoc]; rfl, fun name => ?_⟩
      rw [hdatas name, loadNode_eq s hone, if_pos hload]
      by_cases hname : name = i.1
      · subst hname
        rw [List.filter_cons_of_pos (by simp)]
        simp [Option.map_map, Function.comp_def]
      · rw [List.filter_cons_of_neg (by simpa using fun heq => hname heq.symm)]
        simp [Function.update_of_ne hname]
    · have hskip : callsOf emit s (i :: is) = callsOf emit s is := by
        unfold callsOf
        rw [List.filter_cons_of_neg (by simpa using hload)]
      have hstay : loadNode fromString emit s i = s := by rw [loadNode_eq s hone, if_neg hload]
      rw [hstay] at hdatas ⊢
      rw [hskip]
      exact ⟨rfl, hdatas⟩

/-- **What a tree says**: the members whose joined keys are admitted, and satisfy `P`. -/
def namedMembers (P : String → Bool) (root : YamlNode) : List (String × YamlNode) :=
  ((members root).map (named "")).filter fun i => Admitted i.1 ∧ P i.1

theorem filter_listAllMember (P : String → Bool) (root : YamlNode) :
    (ListAllMember "" root).filter (fun i => P i.1) = namedMembers P root := by
  rw [listAllMember_eq]
  unfold namedMembers
  rw [List.filter_filter]
  simp [Bool.and_comm]

theorem listAllMember_admitted (root : YamlNode) : ∀ i ∈ ListAllMember "" root, Admitted i.1 := by
  intro i hi
  rw [listAllMember_eq] at hi
  simpa using (List.mem_filter.1 hi).2

/-- **A variable goes through the texts** that the document has for its name. -/
theorem load_datas (fromString : ν → String → ν) (emit : YamlNode → String) (s : ConfigVarMap ν)
    (root : YamlNode) (name : String) : (LoadFromYaml fromString emit s root).datas name =
      (s.datas name).map fun var =>
        ((namedMembers (fun n => n ≠ "" ∧ n = name) root).map fun i => nodeText emit i.2).foldl
          fromString var := by
  have hdatas := (@loadNodes_eq _ fromString emit _ (listAllMember_admitted root) s).2 name
  unfold LoadFromYaml
  rw [hdatas]
  cases hvar : s.datas name with
  | none => rfl
  | some var =>
    -- the calls with this name are those of the members with it
    have hname : ∀ i : String × YamlNode,
        (decide (i.1 = name) && decide (s.Loads i.1)) = decide (i.1 ≠ "" ∧ i.1 = name) := by
      intro i
      unfold Loads
      by_cases heq : i.1 = name
      · simp [heq, hvar]
      · simp [heq]
    rw [← filter_listAllMember]
    simp only [Option.map_some, callsOf, List.filter_map, List.map_map, List.filter_filter,
      Function.comp_def, hname]

/-- The `fromString` of a variable with a conversion of its own, of which `LoadFromYaml` does not look
at the result. -/
def convert {ε α : Type} [DecidableEq α] (c : (String → Except ε α) × StringVar α) (text : String) :
    (String → Except ε α) × StringVar α :=
  (c.1, (c.2.fromString c.1 text).var)

/-- The value a text is converted to, if it is. -/
def converted {ε α : Type} (FromStr : String → Except ε α) (text : String) : Option α :=
  (FromStr text).toOption

/-- A text that cannot be converted changes nothing; one that can is assigned. -/
theorem foldl_convert {ε α : Type} [DecidableEq α] (FromStr : String → Except ε α) (var : StringVar α)
    (texts : List String) : texts.foldl convert (FromStr, var) =
      (FromStr, (texts.filterMap (converted FromStr)).foldl (fun var v => (var.setValue v).var) var) := by
  induction texts generalizing var with
  | nil => rfl
  | cons text texts ih =>
    rw [List.foldl_cons]
    cases h : FromStr text with
    | error e =>
      have hstay : convert (FromStr, var) text = (FromStr, var) := by
        simp [convert, StringVar.fromString, h]
      have hnone : converted FromStr text = none := by simp [converted, h, Except.toOption]
      rw [hstay, ih, List.filterMap_cons_none hnone]
    | ok v =>
      have hset : convert (FromStr, var) text = (FromStr, (var.setValue v).var) := by
        simp [convert, StringVar.fromString, h]
      have hsome : converted FromStr text = some v := by simp [converted, h, Except.toOption]
      rw [hset, ih, List.filterMap_cons_some hsome, List.foldl_cons]

/-- **A conversion that fails** leaves its variable as it is, and all others. -/
theorem load_converted {ε α : Type} [DecidableEq α] (emit : YamlNode → String)
    (s : ConfigVarMap ((String → Except ε α) × StringVar α)) (root : YamlNode) (name : String) :
    (LoadFromYaml convert emit s root).datas name =
      (s.datas name).map fun c =>
        (c.1, (((namedMembers (fun n => n ≠ "" ∧ n = name) root).map fun i =>
          nodeText emit i.2).filterMap (converted c.1)).foldl (fun var v => (var.setValue v).var) c.2) := by
  rw [load_datas]
  simp only [← foldl_convert]

/-- `"x"` cannot be converted, which the variable after it does not notice. -/
example :
    let load : String → Option String := fun name =>
      ((LoadFromYaml convert (fun _ => "")
        { datas := fun _ => some (fun text => if text = "x" then .error () else .ok text, ⟨"0", []⟩) }
        (.map [("a", .scalar "x"), ("b", .scalar "1")])).datas name).map (·.2.m_val)
    load "a" = some "0" ∧ load "b" = some "1" := by
  decide

/-- **`LoadFromYaml` updates exactly the named variables**: it lists the admitted members and
no others; it calls `fromString` once for each of them that has a non-empty, registered name, in
document order and with its text; and a variable has gone through the calls with its name. -/
theorem load_exact {ν : Type} (fromString : ν → String → ν) (emit : YamlNode → String)
    (s : ConfigVarMap ν) (root : YamlNode) :
    ListAllMember "" root = namedMembers (fun _ => true) root ∧
      (LoadFromYaml fromString emit s root).calls =
        s.calls ++ (namedMembers (fun name => name ≠ "" ∧ (s.datas name).isSome) root).map
          (fun i => (i.1, nodeText emit i.2)) ∧
      ∀ name, (LoadFromYaml fromString emit s root).datas name =
        (s.datas name).map fun var =>
          ((namedMembers (fun n => n ≠ "" ∧ n = name) root).map fun i => nodeText emit i.2).foldl
            fromString var := by
  have hlist : ListAllMember "" root = namedMembers (fun _ => true) root := by
    rw [← filter_listAllMember]
    simp
  refine ⟨hlist, ?_, load_datas fromString emit s root⟩
  have hcalls := (@loadNodes_eq _ fromString emit _ (listAllMember_admitted root) s).1
  unfold LoadFromYaml
  rw [hcalls, ← filter_listAllMember]
  rfl

/-- A variable of the empty name is never given a value, also where the tree has a member of that
name. -/
theorem empty_name_skipped :
    ¬ ∀ (s : ConfigVarMap String) (root : YamlNode),
      (LoadFromYaml (fun _ text => text) (fun _ => "") s root).calls =
        s.calls ++
          ((((members root).filter fun m => m.1 ≠ []).map (named "")).filter fun i =>
              Admitted i.1 ∧ (s.datas i.1).isSome).map fun i => (i.1, nodeText (fun _ => "") i.2) := by
  intro h
  have hcalls := h { datas := fun name => if name = "" then some "0" else none }
    (.map [("", .scalar "1")])
  revert hcalls
  decide

end ConfigVarMap

end Coroutine
