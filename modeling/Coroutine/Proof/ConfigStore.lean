import Coroutine.Proof.ConfigLookup
import Coroutine.Proof.ConfigNotify
import Coroutine.Spec.ConfigStore

/-!
# The configuration as a table

Over every sequence of calls of one thread the variables are a table of values, and their listeners
follow them.

* `Edited`: what may be done to one variable keeps what its listeners were told (`Told`), and tells
  nothing to a listener that was removed.
* `step_onward`: a call does nothing else to any variable, removes none and changes no type.
* `step_table`: on the values it is a call of the table.
* `store_refines`: the same for runs.
-/

namespace Coroutine

open Lib ConfigVarMap

/-! ## One variable -/

namespace ListenedVar

variable {α : Type} {x x' x'' : ListenedVar α} {n n' n'' : ℕ}

/-- **Each listener was told every change since it was added**, in order, and nothing else; keys up
to `next` were given to listeners. -/
structure Told (next : ℕ) (x : ListenedVar α) : Prop where
  keys : x.m_cbs.Pairwise (· < ·)
  known : ∀ key ∈ x.m_cbs, key ≤ next
  chain : ∀ key ∈ x.m_cbs, Chained (x.since key) (x.told key)
  last : ∀ key ∈ x.m_cbs, lastNew (x.since key) (x.told key) = x.m_val
  changes : ∀ key, ∀ d ∈ x.told key, d.1 ≠ d.2

theorem new_told (default_value : α) (n : ℕ) : Told n { m_val := default_value } := by
  refine ⟨List.Pairwise.nil, ?_, ?_, ?_, ?_⟩
  · intro key hkey
    cases hkey
  · intro key hkey
    cases hkey
  · intro key hkey
    cases hkey
  · intro key d hd
    cases hd

/-- What may be done to a variable while the last key given goes from `n` to `n'`. -/
structure Edited (n n' : ℕ) (x x' : ListenedVar α) : Prop where
  told : x.Told n → x'.Told n'
  removed : ∀ key ≤ n, key ∉ x.m_cbs → key ∉ x'.m_cbs ∧ x'.told key = x.told key

theorem Edited.refl (h : n ≤ n') (x : ListenedVar α) : Edited n n' x x :=
  ⟨fun ht => ⟨ht.keys, fun key hkey => (ht.known key hkey).trans h, ht.chain, ht.last, ht.changes⟩,
    fun _ _ hnot => ⟨hnot, rfl⟩⟩

theorem Edited.trans (h : n ≤ n') (h₁ : Edited n n' x x') (h₂ : Edited n' n'' x' x'') :
    Edited n n'' x x'' := by
  refine ⟨fun ht => h₂.told (h₁.told ht), fun key hkey hnot => ?_⟩
  obtain ⟨hnot', htold⟩ := h₁.removed key hkey hnot
  obtain ⟨hnot'', htold'⟩ := h₂.removed key (hkey.trans h) hnot'
  exact ⟨hnot'', htold'.trans htold⟩

theorem setValue_val [DecidableEq α] (x : ListenedVar α) (v : α) : (x.setValue v).m_val = v := by
  unfold setValue
  split
  · rename_i heq
    exact heq.symm
  · rfl

/-- A change is told to all listeners there are. -/
theorem setValue_edited [DecidableEq α] (n : ℕ) (x : ListenedVar α) (v : α) :
    Edited n n x (x.setValue v) := by
  unfold setValue
  split
  · exact Edited.refl (Nat.le_refl n) x
  rename_i hne
  refine ⟨fun ht => ⟨ht.keys, ht.known, ?_, ?_, ?_⟩, ?_⟩
  · intro key hkey
    dsimp only
    rw [if_pos hkey, chained_append]
    exact ⟨ht.chain key hkey, (ht.last key hkey).symm⟩
  · intro key hkey
    dsimp only
    rw [if_pos hkey, lastNew_append]
  · intro key d hd
    dsimp only at hd
    by_cases hkey : key ∈ x.m_cbs
    · rw [if_pos hkey] at hd
      rcases List.mem_append.1 hd with hold | hnew
      · exact ht.changes key d hold
      · rw [List.mem_singleton.1 hnew]
        exact fun heq => hne heq.symm
    · rw [if_neg hkey] at hd
      exact ht.changes key d hd
  · intro key _ hnot
    exact ⟨hnot, if_neg hnot⟩

/-- A new listener has been told nothing, and its key is new. -/
theorem addListener_edited (n : ℕ) (x : ListenedVar α) :
    Edited n (n + 1) x (x.addListener (n + 1)) := by
  have hother : ∀ key ≤ n, (x.addListener (n + 1)).told key = x.told key ∧
      (x.addListener (n + 1)).since key = x.since key := by
    intro key hkey
    have hne : key ≠ n + 1 := by omega
    exact ⟨Function.update_of_ne hne _ _, Function.update_of_ne hne _ _⟩
  have hself : (x.addListener (n + 1)).told (n + 1) = [] ∧
      (x.addListener (n + 1)).since (n + 1) = x.m_val :=
    ⟨Function.update_self .., Function.update_self ..⟩
  have hcbs : ∀ key, key ∈ (x.addListener (n + 1)).m_cbs ↔ key ∈ x.m_cbs ∨ key = n + 1 := by
    intro key
    show key ∈ x.m_cbs ++ [n + 1] ↔ _
    rw [List.mem_append, List.mem_singleton]
  refine ⟨fun ht => ⟨?_, ?_, ?_, ?_, ?_⟩, ?_⟩
  · show (x.m_cbs ++ [n + 1]).Pairwise (· < ·)
    refine List.pairwise_append.2
      ⟨ht.keys, List.pairwise_singleton _ _, fun key hkey key' hkey' => ?_⟩
    rw [List.mem_singleton.1 hkey']
    exact Nat.lt_succ_of_le (ht.known key hkey)
  · intro key hkey
    rcases (hcbs key).1 hkey with hold | rfl
    · exact (ht.known key hold).trans (Nat.le_succ n)
    · exact Nat.le_refl _
  · intro key hkey
    rcases (hcbs key).1 hkey with hold | rfl
    · rw [(hother key (ht.known key hold)).1, (hother key (ht.known key hold)).2]
      exact ht.chain key hold
    · rw [hself.1]
      trivial
  · intro key hkey
    rcases (hcbs key).1 hkey with hold | rfl
    · rw [(hother key (ht.known key hold)).1, (hother key (ht.known key hold)).2]
      exact ht.last key hold
    · rw [hself.1, hself.2]
      rfl
  · intro key d hd
    by_cases hkey : key = n + 1
    · subst hkey
      rw [hself.1] at hd
      cases hd
    · have htold : (x.addListener (n + 1)).told key = x.told key := Function.update_of_ne hkey _ _
      rw [htold] at hd
      exact ht.changes key d hd
  · intro key hkey hnot
    refine ⟨fun hin => ?_, (hother key hkey).1⟩
    rcases (hcbs key).1 hin with hold | rfl
    · exact hnot hold
    · omega

/-- Listeners are removed. -/
theorem remove_edited (n : ℕ) (x : ListenedVar α) {m_cbs : List ℕ} (h : m_cbs.Sublist x.m_cbs) :
    Edited n n x { x with m_cbs := m_cbs } :=
  ⟨fun ht => ⟨ht.keys.sublist h, fun key hkey => ht.known key (h.subset hkey),
      fun key hkey => ht.chain key (h.subset hkey), fun key hkey => ht.last key (h.subset hkey),
      ht.changes⟩,
    fun _ _ hnot => ⟨fun hin => hnot (h.subset hin), rfl⟩⟩

end ListenedVar

namespace ConfigStore

variable {τ : Type} [DecidableEq τ] {Val : τ → Type} [∀ t, DecidableEq (Val t)]
  {s s' s'' : ConfigStore Val} {env : ConfigEnv Val} {t : τ} {name : String}

omit [∀ t, DecidableEq (Val t)] in
theorem pointer_eq_some {x : ListenedVar (Val t)} :
    s.pointer t name = some x ↔ s.vars.datas name = some ⟨t, x⟩ := by
  unfold pointer
  cases hdata : s.vars.datas name with
  | none => simp
  | some y =>
    obtain ⟨t', y⟩ := y
    by_cases ht : t' = t
    · subst ht
      simp
    · simp [ht]

/-! ## All variables -/

/-- **What calls do to the variables.** -/
structure Onward (s s' : ConfigStore Val) : Prop where
  ids : ∀ t, s.s_fun_id t ≤ s'.s_fun_id t
  old : ∀ name t x, s.vars.datas name = some ⟨t, x⟩ →
    ∃ x', s'.vars.datas name = some ⟨t, x'⟩ ∧ x.Edited (s.s_fun_id t) (s'.s_fun_id t) x'
  new : ∀ name t x', s.vars.datas name = none → s'.vars.datas name = some ⟨t, x'⟩ →
    x'.Told (s'.s_fun_id t)

omit [DecidableEq τ] [∀ t, DecidableEq (Val t)] in
theorem Onward.refl (s : ConfigStore Val) : Onward s s := by
  refine ⟨fun _ => Nat.le_refl _, fun name t x hx => ⟨x, hx, .refl (Nat.le_refl _) x⟩, ?_⟩
  intro name t x' hnone hx
  rw [hnone] at hx
  cases hx

omit [DecidableEq τ] [∀ t, DecidableEq (Val t)] in
theorem Onward.trans (h₁ : Onward s s') (h₂ : Onward s' s'') : Onward s s'' := by
  refine ⟨fun t => (h₁.ids t).trans (h₂.ids t), ?_, ?_⟩
  · intro name t x hx
    obtain ⟨x', hx', hedit⟩ := h₁.old name t x hx
    obtain ⟨x'', hx'', hedit'⟩ := h₂.old name t x' hx'
    exact ⟨x'', hx'', hedit.trans (h₁.ids t) hedit'⟩
  · intro name t x'' hnone hx''
    cases hmid : s'.vars.datas name with
    | none => exact h₂.new name t x'' hmid hx''
    | some y =>
      obtain ⟨t', x'⟩ := y
      obtain ⟨y, hy, hedit⟩ := h₂.old name t' x' hmid
      rw [hy] at hx''
      cases hx''
      exact hedit.told (h₁.new name _ x' hnone hmid)

omit [DecidableEq τ] [∀ t, DecidableEq (Val t)] in
/-- The names stay, and so do the variables but one. -/
theorem onward_update {x x' : ListenedVar (Val t)} (hx : s.vars.datas name = some ⟨t, x⟩)
    (hids : ∀ t, s.s_fun_id t ≤ s'.s_fun_id t)
    (hvars : s'.vars.datas = Function.update s.vars.datas name (some ⟨t, x'⟩))
    (hedit : x.Edited (s.s_fun_id t) (s'.s_fun_id t) x') : Onward s s' := by
  refine ⟨hids, fun n u y hy => ?_, fun n u y hnone hy => ?_⟩
  · rw [hvars]
    by_cases hn : n = name
    · subst hn
      rw [hx] at hy
      cases hy
      exact ⟨x', Function.update_self .., hedit⟩
    · rw [Function.update_of_ne hn]
      exact ⟨y, hy, .refl (hids u) y⟩
  · have hn : n ≠ name := by
      rintro rfl
      rw [hx] at hnone
      cases hnone
    rw [hvars, Function.update_of_ne hn, hnone] at hy
    cases hy

omit [∀ t, DecidableEq (Val t)] in
theorem onVar_onward {f : ListenedVar (Val t) → ListenedVar (Val t)}
    (hf : ∀ x : ListenedVar (Val t), x.Edited (s.s_fun_id t) (s.s_fun_id t) (f x)) :
    Onward s (s.onVar t name f) := by
  unfold onVar
  cases hpointer : s.pointer t name with
  | none => exact Onward.refl s
  | some x =>
    exact onward_update (pointer_eq_some.1 hpointer) (fun _ => Nat.le_refl _) rfl (hf x)

omit [DecidableEq τ] in
/-- A variable after texts were read into it. -/
theorem foldl_edited (env : ConfigEnv Val) (n : ℕ) (texts : List String) :
    ∀ x : ListenedVar (Val t), ∃ x', texts.foldl (fromString env) ⟨t, x⟩ = ⟨t, x'⟩ ∧ x.Edited n n x' := by
  induction texts with
  | nil => exact fun x => ⟨x, rfl, .refl (Nat.le_refl n) x⟩
  | cons text texts ih =>
    intro x
    have hone : ∃ x₁, fromString env ⟨t, x⟩ text = ⟨t, x₁⟩ ∧ x.Edited n n x₁ := by
      unfold fromString
      split
      · exact ⟨x, rfl, .refl (Nat.le_refl n) x⟩
      · exact ⟨_, rfl, ListenedVar.setValue_edited n x _⟩
    obtain ⟨x₁, heq, hedit⟩ := hone
    obtain ⟨x', heq', hedit'⟩ := ih x₁
    refine ⟨x', ?_, hedit.trans (Nat.le_refl n) hedit'⟩
    rw [List.foldl_cons, heq, heq']

/-- The texts that a document has for a name, in their order. -/
def texts (emit : YamlNode → String) (root : YamlNode) (name : String) : List String :=
  (namedMembers (fun n => n ≠ "" ∧ n = name) root).map fun i => nodeText emit i.2

theorem lookupStep_eq {ν : Type} (m : ConfigVarMap ν) (call : LookupCall ν) :
    (m.lookupStep call).datas = if m.datas call.name = none ∧ LookupAdmitted call.name then
      Function.update m.datas call.name (some call.var) else m.datas := by
  unfold lookupStep Lookup
  cases hdata : m.datas call.name with
  | some var =>
    dsimp only
    by_cases htype : call.ofType var = true
    · simp [htype]
    · simp [htype]
  | none =>
    dsimp only
    by_cases hname : LookupAdmitted call.name
    · simp [hname]
    · simp [hname]

/-- **A call does nothing else to any variable**, removes none and changes the type of none. -/
theorem step_onward (env : ConfigEnv Val) (s : ConfigStore Val) (c : ConfigCall Val) :
    Onward s (step env s c) := by
  cases c with
  | Lookup t name default_value =>
    have hdatas := lookupStep_eq s.vars
      { name := name, var := ⟨t, { m_val := default_value }⟩, ofType := fun x => decide (x.1 = t) }
    -- only a new name is registered, and without listeners
    by_cases hnew : s.vars.datas name = none ∧ LookupAdmitted name
    · rw [if_pos hnew] at hdatas
      refine ⟨fun _ => Nat.le_refl _, fun n u x hx => ?_, fun n u x' hnone hx => ?_⟩
      · have hn : n ≠ name := by
          rintro rfl
          rw [hnew.1] at hx
          cases hx
        refine ⟨x, ?_, .refl (Nat.le_refl _) x⟩
        show (s.vars.lookupStep _).datas n = _
        rw [hdatas, Function.update_of_ne hn]
        exact hx
      · have hx' : (s.vars.lookupStep _).datas n = some ⟨u, x'⟩ := hx
        rw [hdatas] at hx'
        by_cases hn : n = name
        · subst hn
          rw [Function.update_self] at hx'
          cases hx'
          exact ListenedVar.new_told default_value _
        · rw [Function.update_of_ne hn, hnone] at hx'
          cases hx'
    · rw [if_neg hnew] at hdatas
      have hsame : ∀ n, (step env s (.Lookup t name default_value)).vars.datas n = s.vars.datas n :=
        fun n => congrFun hdatas n
      refine ⟨fun _ => Nat.le_refl _, fun n u x hx => ?_, fun n u x' hnone hx => ?_⟩
      · exact ⟨x, (hsame n).trans hx, .refl (Nat.le_refl _) x⟩
      · rw [hsame n, hnone] at hx
        cases hx
  | setValue t name v => exact onVar_onward fun x => ListenedVar.setValue_edited _ x v
  | addListener t name =>
    simp only [step]
    cases hpointer : s.pointer t name with
    | none => exact Onward.refl s
    | some x =>
      -- the counter is that of the type, not of the variable
      have hids : ∀ u, s.s_fun_id u ≤ Function.update s.s_fun_id t (s.s_fun_id t + 1) u := by
        intro u
        by_cases hu : u = t
        · subst hu
          rw [Function.update_self]
          exact Nat.le_succ _
        · rw [Function.update_of_ne hu]
      have hedit : x.Edited (s.s_fun_id t) (Function.update s.s_fun_id t (s.s_fun_id t + 1) t)
          (x.addListener (s.s_fun_id t + 1)) := by
        rw [Function.update_self]
        exact ListenedVar.addListener_edited (s.s_fun_id t) x
      refine onward_update (pointer_eq_some.1 hpointer) hids ?_ hedit
      simp [onVar, hpointer]
  | delListener t name key =>
    exact onVar_onward fun x => ListenedVar.remove_edited _ x List.erase_sublist
  | clearListener t name =>
    exact onVar_onward fun x => ListenedVar.remove_edited _ x (List.nil_sublist _)
  | LoadFromYaml root =>
    have hdatas : ∀ n, (step env s (.LoadFromYaml root)).vars.datas n =
        (s.vars.datas n).map fun x => (texts env.emit root n).foldl (fromString env) x :=
      load_datas (fromString env) env.emit s.vars root
    refine ⟨fun _ => Nat.le_refl _, fun n u x hx => ?_, fun n u x' hnone hx => ?_⟩
    · obtain ⟨x', heq, hedit⟩ := foldl_edited env (s.s_fun_id u) (texts env.emit root n) x
      refine ⟨x', ?_, hedit⟩
      rw [hdatas, hx, Option.map_some, heq]
    · rw [hdatas, hnone] at hx
      cases hx

end ConfigStore

/-! ## The table -/

namespace ConfigTable

variable {τ : Type} [DecidableEq τ] {Val : τ → Type}

/-- One call, on the table. Listeners are none of its business. -/
def step (env : ConfigEnv Val) (m : ConfigTable Val) : ConfigCall Val → ConfigTable Val
  | .Lookup t name default_value => m.define name ⟨t, default_value⟩
  | .setValue t name v => m.assign name ⟨t, v⟩
  | .LoadFromYaml root => fun name =>
    (m name).map fun w => (ConfigStore.texts env.emit root name).foldl (read env) w
  | .addListener _ _ | .delListener _ _ _ | .clearListener _ _ => m

end ConfigTable

namespace ConfigStore

variable {τ : Type} [DecidableEq τ] {Val : τ → Type} [∀ t, DecidableEq (Val t)]
  {s : ConfigStore Val} {env : ConfigEnv Val} {t : τ} {name : String}

/-- The value of a variable, with its type. -/
def value (x : AnyVar Val) : Σ t, Val t := ⟨x.1, x.2.m_val⟩

/-- The values of the variables. -/
def table (s : ConfigStore Val) : ConfigTable Val := fun name => (s.vars.datas name).map value

omit [DecidableEq τ] in
theorem value_fromString (env : ConfigEnv Val) (x : AnyVar Val) (text : String) :
    value (fromString env x text) = ConfigTable.read env (value x) text := by
  unfold fromString ConfigTable.read value
  dsimp only
  cases hval : env.FromStr x.1 text with
  | error e => rfl
  | ok v =>
    dsimp only
    rw [ListenedVar.setValue_val]

omit [DecidableEq τ] in
theorem value_foldl (env : ConfigEnv Val) (texts : List String) : ∀ x : AnyVar Val,
    value (texts.foldl (fromString env) x) = texts.foldl (ConfigTable.read env) (value x) := by
  induction texts with
  | nil => exact fun _ => rfl
  | cons text texts ih =>
    intro x
    rw [List.foldl_cons, List.foldl_cons, ih, value_fromString]

omit [∀ t, DecidableEq (Val t)] in
/-- A call by a pointer, on the table. -/
theorem onVar_table (s : ConfigStore Val) (t : τ) (name : String)
    (f : ListenedVar (Val t) → ListenedVar (Val t)) (m : ConfigTable Val)
    (hsome : ∀ x, s.vars.datas name = some ⟨t, x⟩ →
      m = Function.update s.table name (some ⟨t, (f x).m_val⟩))
    (hnone : (∀ x, s.vars.datas name ≠ some ⟨t, x⟩) → m = s.table) :
    (s.onVar t name f).table = m := by
  cases hpointer : s.pointer t name with
  | none =>
    have hstay : s.onVar t name f = s := by
      unfold onVar
      rw [hpointer]
    rw [hstay, hnone]
    intro x hx
    rw [← pointer_eq_some, hpointer] at hx
    cases hx
  | some x =>
    rw [hsome x (pointer_eq_some.1 hpointer)]
    funext n
    unfold onVar table
    rw [hpointer]
    dsimp only
    by_cases hn : n = name
    · subst hn
      rw [Function.update_self, Function.update_self]
      rfl
    · rw [Function.update_of_ne hn, Function.update_of_ne hn]

omit [∀ t, DecidableEq (Val t)] in
/-- A call by a pointer that leaves the value alone. -/
theorem onVar_table_same {f : ListenedVar (Val t) → ListenedVar (Val t)}
    (hf : ∀ x, (f x).m_val = x.m_val) : (s.onVar t name f).table = s.table := by
  refine onVar_table s t name f _ (fun x hx => ?_) fun _ => rfl
  have hvalue : s.table name = some ⟨t, (f x).m_val⟩ := by
    unfold table
    rw [hx, hf]
    rfl
  rw [← hvalue, Function.update_eq_self]

/-- **On the values a call is a call of the table.** -/
theorem step_table (env : ConfigEnv Val) (s : ConfigStore Val) (c : ConfigCall Val) :
    (step env s c).table = s.table.step env c := by
  cases c with
  | Lookup t name default_value =>
    funext n
    have hdatas := lookupStep_eq s.vars
      { name := name, var := ⟨t, { m_val := default_value }⟩, ofType := fun x => decide (x.1 = t) }
    show ((s.vars.lookupStep _).datas n).map value = _
    rw [hdatas]
    unfold ConfigTable.step ConfigTable.define table
    by_cases hn : n = name
    · subst hn
      by_cases hnew : s.vars.datas n = none ∧ LookupAdmitted n
      · simp [hnew, value]
      · have hold : ¬ ((s.vars.datas n).map value = none ∧ LookupAdmitted n) := by
          rwa [Option.map_eq_none_iff]
        simp [hnew]
    · by_cases hnew : s.vars.datas name = none ∧ LookupAdmitted name
      · simp [hnew, hn]
      · simp [hnew, hn]
  | setValue t name v =>
    refine onVar_table s t name _ _ (fun x hx => ?_) fun hnone => ?_
    · funext n
      show s.table.assign name ⟨t, v⟩ n = _
      unfold ConfigTable.assign
      by_cases hn : n = name
      · subst hn
        rw [if_pos rfl, Function.update_self, ListenedVar.setValue_val]
        simp [table, hx, value]
      · rw [if_neg hn, Function.update_of_ne hn]
    · funext n
      show s.table.assign name ⟨t, v⟩ n = _
      unfold ConfigTable.assign
      by_cases hn : n = name
      · subst hn
        rw [if_pos rfl]
        unfold table
        cases hdata : s.vars.datas n with
        | none => rfl
        | some y =>
          -- of another type: `Lookup` has returned no pointer
          have ht : y.1 ≠ t := by
            rintro rfl
            exact hnone y.2 hdata
          simp [value, ht]
      · rw [if_neg hn]
  | addListener t name =>
    simp only [step]
    split
    · exact onVar_table_same (f := (·.addListener (s.s_fun_id t + 1))) fun _ => rfl
    · rfl
  | delListener t name key => exact onVar_table_same fun _ => rfl
  | clearListener t name => exact onVar_table_same fun _ => rfl
  | LoadFromYaml root =>
    funext n
    show ((s.vars.LoadFromYaml (fromString env) env.emit root).datas n).map value =
      (s.table n).map _
    rw [load_datas]
    unfold table
    rw [Option.map_map, Option.map_map]
    refine congrArg (fun g => (s.vars.datas n).map g) ?_
    funext x
    exact value_foldl env _ x

/-! ## Runs -/

theorem run_onward (env : ConfigEnv Val) (cs : List (ConfigCall Val)) (s : ConfigStore Val) :
    Onward s (run (step env) s cs) :=
  run_inv (I := Onward s) (fun _ c h => h.trans (step_onward env _ c)) cs s (Onward.refl s)

/-- **The configuration refines a table of values, and its listeners follow it.** After every
sequence of calls the values are those of the table; each listener has been told every change since
it was added, in order; and whatever is called from then on, a variable stays registered with its
type, and no listener that is not there any more is told anything. -/
theorem store_refines {τ : Type} [DecidableEq τ] {Val : τ → Type} [∀ t, DecidableEq (Val t)]
    (env : ConfigEnv Val) (cs : List (ConfigCall Val)) :
    let s := run (step env) init cs
    s.table = run (ConfigTable.step env) (fun _ => none) cs ∧
      ∀ name t x, s.vars.datas name = some ⟨t, x⟩ → x.Told (s.s_fun_id t) ∧
        ∀ later, ∃ x', (run (step env) s later).vars.datas name = some ⟨t, x'⟩ ∧
          ∀ key ≤ s.s_fun_id t, key ∉ x.m_cbs → key ∉ x'.m_cbs ∧ x'.told key = x.told key := by
  intro s
  refine ⟨?_, fun name t x hx => ⟨?_, fun later => ?_⟩⟩
  · have hrun : ∀ (cs : List (ConfigCall Val)) (s : ConfigStore Val),
        (run (step env) s cs).table = run (ConfigTable.step env) s.table cs := by
      intro cs
      induction cs with
      | nil => exact fun _ => rfl
      | cons c cs ih =>
        intro s
        rw [run_cons, run_cons, ih, step_table]
    exact hrun cs init
  · exact (run_onward env cs init).new name t x rfl hx
  · obtain ⟨x', hx', hedit⟩ := (run_onward env later s).old name t x hx
    exact ⟨x', hx', hedit.removed⟩

end ConfigStore

end Coroutine
