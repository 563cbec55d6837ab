import Coroutine.Lib.Run
import Coroutine.Proof.ConfigLoad
import Coroutine.Spec.ConfigLookup

/-!
# The names `Lookup` registers and those `LoadFromYaml` reaches

The two lists of characters differ in one: `Lookup` has a second `g` for the `j`. And a key is only
turned to lower case after its name has been tested.

* `lookupAdmitted_iff`: what `Lookup` admits is what `ListAllMember` admits, without `j`.
* `load_all_iff`: `LoadFromYaml` hands over every member whose lower-case name is registered, if and
  only if all of these are written in admitted characters and not empty.
* `registered_iff`: in a registry that `Lookup` has filled, that means: in lower case.
* `names_agree_iff`: both, as one statement.
-/

namespace Coroutine

namespace ConfigVarMap

open Lib YamlNode

variable {ν : Type}

/-- What `std::transform` with `::tolower` makes of a name. -/
def lower (name : String) : String := String.ofList (name.toList.map Char.toLower)

/-! ## The lists of characters -/

theorem mem_lookupChars {c : Char} : c ∈ lookupChars ↔ c ∈ admitted ∧ c ≠ 'j' := by
  constructor
  · have hall : lookupChars.all (fun c => decide (c ∈ admitted ∧ c ≠ 'j')) = true := by decide
    exact fun hc => of_decide_eq_true (List.all_eq_true.1 hall c hc)
  · have hall : admitted.all (fun c => decide (c ≠ 'j' → c ∈ lookupChars)) = true := by decide
    rintro ⟨hc, hj⟩
    exact of_decide_eq_true (List.all_eq_true.1 hall c hc) hj

theorem lookupAdmitted_iff (name : String) :
    LookupAdmitted name ↔ Admitted name ∧ 'j' ∉ name.toList := by
  unfold LookupAdmitted Admitted
  simp only [mem_lookupChars]
  constructor
  · exact fun h => ⟨fun c hc => (h c hc).1, fun hj => (h 'j' hj).2 rfl⟩
  · rintro ⟨hall, hj⟩ c hc
    exact ⟨hall c hc, fun heq => hj (heq ▸ hc)⟩

/-! ## `Lookup` -/

theorem lookup_new {s : ConfigVarMap ν} {call : LookupCall ν} (h : s.datas call.name = none) :
    (∃ r, s.Lookup call = .ok r) ↔ LookupAdmitted call.name := by
  unfold Lookup
  rw [h]
  by_cases hname : LookupAdmitted call.name
  · simp [hname]
  · simp [hname]

/-- **One call** registers its own name at most, which it then admits. -/
theorem lookupStep_datas (s : ConfigVarMap ν) (call : LookupCall ν) {name : String}
    (h : ((s.lookupStep call).datas name).isSome) :
    (s.datas name).isSome ∨ name = call.name ∧ LookupAdmitted name := by
  unfold lookupStep Lookup at h
  cases hdata : s.datas call.name with
  | some var =>
    rw [hdata] at h
    cases htype : call.ofType var <;> simp [htype] at h <;> exact .inl h
  | none =>
    rw [hdata] at h
    by_cases hname : LookupAdmitted call.name
    · simp only [hname, not_true_eq_false, if_false] at h
      by_cases heq : name = call.name
      · exact .inr ⟨heq, heq ▸ hname⟩
      · rw [Function.update_of_ne heq] at h
        exact .inl h
    · simp only [hname, not_false_eq_true, if_true] at h
      exact .inl h

/-- The registry after calls of `Lookup`, from the empty one. -/
def registered (calls : List (LookupCall ν)) : ConfigVarMap ν :=
  run lookupStep { datas := fun _ => none } calls

theorem registered_admitted (calls : List (LookupCall ν)) {name : String}
    (h : ((registered calls).datas name).isSome) : LookupAdmitted name := by
  have hall : ∀ name, ((registered calls).datas name).isSome → LookupAdmitted name := by
    refine run_inv (I := fun s : ConfigVarMap ν => ∀ name, (s.datas name).isSome →
      LookupAdmitted name) ?_ calls _ ?_
    · intro s call hs name hname
      -- what is registered now was before, or by this call
      rcases lookupStep_datas s call hname with hold | ⟨-, hnew⟩
      · exact hs name hold
      · exact hnew
    · intro name hname
      cases hname
  exact hall name h

/-- **A name that leads to a variable some `Lookup` has registered** is admitted as it is written
exactly if it is written in lower case. -/
theorem registered_iff (calls : List (LookupCall ν)) {name : String}
    (h : ((registered calls).datas (lower name)).isSome) : Admitted name ↔ lower name = name := by
  constructor
  · exact toLower_name
  · intro heq
    rw [← heq]
    exact ((lookupAdmitted_iff _).1 (registered_admitted calls h)).1

/-! ## `LoadFromYaml` -/

/-- **The members that name a variable**: those with a key whose joined keys, in lower case, are
registered. -/
def wanted (s : ConfigVarMap ν) (root : YamlNode) : List (String × YamlNode) :=
  (((members root).filter fun m => m.1 ≠ []).map (named "")).filter fun i =>
    (s.datas (lower i.1)).isSome

/-- The members `LoadFromYaml` hands over are the wanted ones with a name that is admitted and not
empty. -/
theorem namedMembers_eq (s : ConfigVarMap ν) (root : YamlNode) :
    namedMembers (fun name => name ≠ "" ∧ (s.datas name).isSome) root =
      (wanted s root).filter fun i => Admitted i.1 ∧ i.1 ≠ "" := by
  unfold namedMembers wanted
  rw [List.filter_filter, List.filter_map, List.filter_map, List.filter_filter]
  congr 1
  refine List.filter_congr fun m _ => ?_
  by_cases hname : Admitted (named "" m).1 ∧ (named "" m).1 ≠ ""
  · have hkeys : m.1 ≠ [] := by
      intro heq
      refine hname.2 ?_
      unfold named
      rw [heq]
      rfl
    have hlower : lower (named "" m).1 = (named "" m).1 := toLower_name hname.1
    simp [hname, hkeys, hlower]
  · -- the joined keys may be empty although there is a key: `LoadFromYaml` skips such a member
    by_cases hadm : Admitted (named "" m).1
    · have hempty : (named "" m).1 = "" := by
        by_contra hne
        exact hname ⟨hadm, hne⟩
      simp [hempty]
    · simp [hadm]

/-- **`LoadFromYaml` hands over all members that name a variable**, each once and in document order,
if and only if each of them is written in admitted characters and not empty. -/
theorem load_all_iff {fromString : ν → String → ν} {emit : YamlNode → String} (s : ConfigVarMap ν)
    (root : YamlNode) :
    (LoadFromYaml fromString emit s root).calls =
        s.calls ++ (wanted s root).map (fun i => (lower i.1, nodeText emit i.2)) ↔
      ∀ i ∈ wanted s root, Admitted i.1 ∧ i.1 ≠ "" := by
  obtain ⟨-, hcalls, -⟩ := load_exact fromString emit s root
  rw [hcalls, List.append_cancel_left_eq, namedMembers_eq]
  constructor
  · intro heq
    -- a filtered list as long as the whole has lost nothing
    have hlength := congrArg List.length heq
    rw [List.length_map, List.length_map, List.length_filter_eq_length_iff] at hlength
    intro i hi
    exact of_decide_eq_true (hlength i hi)
  · intro hall
    have hself : (wanted s root).filter (fun i => Admitted i.1 ∧ i.1 ≠ "") = wanted s root := by
      rw [List.filter_eq_self]
      exact fun i hi => decide_eq_true (hall i hi)
    rw [hself]
    refine List.map_congr_left fun i hi => ?_
    rw [show lower i.1 = i.1 from toLower_name (hall i hi).1]

/-- **Where registration and loading agree.** `Lookup` of an unregistered name is successful exactly when
`ListAllMember` admits the name, if and only if this is not an admitted name with a `j`; and
`LoadFromYaml` hands each member whose joined keys in lower case are registered to the variable, in
document order, if and only if all of these are written in admitted characters and not empty. -/
theorem names_agree_iff {ν : Type} (fromString : ν → String → ν) (emit : YamlNode → String)
    (s : ConfigVarMap ν) :
    (∀ call : LookupCall ν, s.datas call.name = none →
      (((∃ r, s.Lookup call = .ok r) ↔ Admitted call.name) ↔
        ¬ ('j' ∈ call.name.toList ∧ Admitted call.name))) ∧
    ∀ root : YamlNode, (LoadFromYaml fromString emit s root).calls =
        s.calls ++ (wanted s root).map (fun i => (lower i.1, nodeText emit i.2)) ↔
      ∀ i ∈ wanted s root, Admitted i.1 ∧ i.1 ≠ "" := by
  refine ⟨fun call hnone => ?_, load_all_iff s⟩
  rw [lookup_new hnone, lookupAdmitted_iff]
  by_cases hadm : Admitted call.name <;> by_cases hj : 'j' ∈ call.name.toList <;> simp [hadm, hj]

/-- The name `j`, which is admitted as a path, cannot be registered; and the key `A` does not reach the
variable `a`. -/
theorem j_and_upper_case :
    ¬ ((∀ (s : ConfigVarMap String) (call : LookupCall String), call.name ≠ "" →
        s.datas call.name = none → ((∃ r, s.Lookup call = .ok r) ↔ Admitted call.name)) ∨
      ∀ (calls : List (LookupCall String)) (root : YamlNode),
        (LoadFromYaml (fun _ text => text) (fun _ => "") (registered calls) root).calls =
          (wanted (registered calls) root).map fun i => (lower i.1, nodeText (fun _ => "") i.2)) := by
  rintro (h | h)
  · have hj := h { datas := fun _ => none } ⟨"j", "0", fun _ => true⟩ (by decide) rfl
    obtain ⟨r, hr⟩ := hj.2 (by decide)
    cases hr
  · have hcalls := h [⟨"a", "0", fun _ => true⟩] (.map [("A", .scalar "1")])
    revert hcalls
    decide

end ConfigVarMap

end Coroutine
