import Coroutine.Spec.ConfigString

/-!
# What `fromString` reports

`fromString` returns false on every path, and `setValue` notifies before it assigns.

* `callAll_thrown_iff`, `setValue_cases`: how a call of `setValue` can end.
* `Atomic`: the result tells whether the variable has the converted value, and a call in which
  something throws changes nothing and tells nobody. Who counts as told is an argument: the
  listeners that were called, or those of them that returned.
* `fromString_atomic_iff`: when it holds, for both.
-/

namespace Coroutine

/-- The listeners that were called and returned. -/
def FromStringResult.returned {α : Type} (r : FromStringResult α) : ℕ :=
  if r.thrown then r.called - 1 else r.called

namespace StringVar

variable {α ε : Type} {v : α}

/-- **All or nothing**: `r` is how `fromString(val)` ended, with `told` listeners told. -/
def Atomic (FromStr : String → Except ε α) (c : StringVar α) (val : String)
    (r : FromStringResult α) (told : ℕ) : Prop :=
  (r.result = true ↔ ∃ v, FromStr val = .ok v ∧ r.var.m_val = v) ∧
    ((∃ e, FromStr val = .error e) ∨ r.thrown = true →
      r.result = false ∧ r.var = c ∧ told = 0)

/-- A loop in which a listener throws has called it, and it alone when it is the first. -/
theorem callAll_thrown {m_val : α} {cbs : List (OnChangeCb α)}
    (h : (callAll m_val v cbs).2 = true) :
    0 < (callAll m_val v cbs).1 ∧
      ((callAll m_val v cbs).1 = 1 ↔ ∃ cb rest, cbs = cb :: rest ∧ cb m_val v = true) := by
  cases cbs with
  | nil => cases h
  | cons cb rest =>
    unfold callAll at h ⊢
    by_cases hcb : cb m_val v = true
    · simp [hcb]
    · rw [if_neg hcb] at h ⊢
      have hpos : 0 < (callAll m_val v rest).1 := (callAll_thrown h).1
      refine ⟨Nat.succ_pos _, ?_⟩
      constructor
      · intro hone
        exact absurd hone (by show ¬ (callAll m_val v rest).1 + 1 = 1; omega)
      · rintro ⟨cb', rest', heq, hthrows⟩
        cases heq
        exact absurd hthrows hcb

/-- A first listener that throws ends the loop. -/
theorem callAll_first {m_val : α} {cb : OnChangeCb α} (h : cb m_val v = true)
    (rest : List (OnChangeCb α)) : callAll m_val v (cb :: rest) = (1, true) := by
  rw [callAll, if_pos h]

variable [DecidableEq α]

/-- **How `setValue` ends**: with the value, and nothing thrown; or as it began, with at least one
listener called. -/
theorem setValue_cases (c : StringVar α) (v : α) :
    ((c.setValue v).thrown = false ∧ (c.setValue v).var.m_val = v) ∨
      (v ≠ c.m_val ∧ (c.setValue v).thrown = true ∧ (c.setValue v).var = c ∧
        (callAll c.m_val v c.m_cbs).2 = true ∧
        (c.setValue v).called = (callAll c.m_val v c.m_cbs).1) := by
  unfold setValue
  by_cases hv : v = c.m_val
  · left
    simp [hv]
  · cases hthrown : (callAll c.m_val v c.m_cbs).2 with
    | false => left; simp [hv, hthrown]
    | true => right; simp [hv, hthrown]

/-- **`fromString` is all or nothing only when the conversion throws**; if a listener that throws
does not count as told, then also when the value is new and the first listener throws. -/
theorem fromString_atomic_iff {α ε : Type} [DecidableEq α] (FromStr : String → Except ε α)
    (c : StringVar α) (val : String) :
    (Atomic FromStr c val (c.fromString FromStr val) (c.fromString FromStr val).called ↔
        ∃ e, FromStr val = .error e) ∧
      (Atomic FromStr c val (c.fromString FromStr val) (c.fromString FromStr val).returned ↔
        (∃ e, FromStr val = .error e) ∨
          ∃ v cb rest, FromStr val = .ok v ∧ v ≠ c.m_val ∧ c.m_cbs = cb :: rest ∧
            cb c.m_val v = true) := by
  unfold fromString Atomic FromStringResult.returned
  cases hconv : FromStr val with
  | error e => simp
  | ok v =>
    simp only [reduceCtorEq, exists_false, false_or, Bool.false_eq_true, Except.ok.injEq,
      exists_eq_left', false_iff, true_and]
    rcases setValue_cases c v with ⟨hthrown, hval⟩ | ⟨hne, hthrown, hvar, hcalls, hcalled⟩
    · -- the variable has the value, and the result is false
      have hno : (¬ ∃ w cb rest, v = w ∧ w ≠ c.m_val ∧ c.m_cbs = cb :: rest ∧ cb c.m_val w = true) := by
        rintro ⟨w, cb, rest, rfl, hne, hcbs, hthrows⟩
        have hset : (c.setValue v).thrown = true := by
          unfold setValue
          rw [if_neg hne, hcbs, callAll_first hthrows]
          rfl
        rw [hthrown] at hset
        cases hset
      exact ⟨⟨fun h => absurd hval h.1, False.elim⟩,
        ⟨fun h => absurd hval h.1, fun h => absurd h hno⟩⟩
    · obtain ⟨hpos, hone⟩ := callAll_thrown hcalls
      have hdiff : (c.setValue v).var.m_val ≠ v := by
        rw [hvar]
        exact fun heq => hne heq.symm
      rw [hthrown, hcalled]
      constructor
      · constructor
        · rintro ⟨-, hall⟩
          have hzero := (hall rfl).2
          omega
        · exact False.elim
      · constructor
        · rintro ⟨-, hall⟩
          have hzero := (hall rfl).2
          rw [if_pos rfl] at hzero
          obtain ⟨cb, rest, hcbs, hthrows⟩ := hone.1 (by omega)
          exact ⟨v, cb, rest, rfl, hne, hcbs, hthrows⟩
        · rintro ⟨w, cb, rest, rfl, -, hcbs, hthrows⟩
          refine ⟨hdiff, fun _ => ⟨hvar, ?_⟩⟩
          rw [if_pos rfl, hone.2 ⟨cb, rest, hcbs, hthrows⟩]

/-- A variable without listeners takes the value, and the result is false. -/
theorem stored_not_reported :
    ¬ ∀ (c : StringVar ℕ) (val : String),
      let FromStr : String → Except String ℕ := fun _ => .ok 5
      Atomic FromStr c val (c.fromString FromStr val) (c.fromString FromStr val).called := by
  intro h
  have hset := (h { m_val := 3, m_cbs := [] } "5").1.2 ⟨5, rfl, rfl⟩
  cases hset

end StringVar

end Coroutine
