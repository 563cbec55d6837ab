import Mathlib.Algebra.BigOperators.Group.Finset.Basic
import Mathlib.Algebra.Order.BigOperators.Group.Finset
import Mathlib.Logic.Function.Basic

/-!
# What each of many parties holds

* `sum_change`: when one share changes, the sum of the shares changes by as much.
* `update_elim`, `update_intro`: what holds of a party after one party has changed.
* `Exclusive`: no two parties hold the same thing; a party may let go, or take what no
  other party holds.
-/

namespace Coroutine.Lib

/-- **One share changes.** -/
theorem sum_change {ι : Type*} [DecidableEq ι] {s : Finset ι} {f g : ι → ℕ} {i : ι} (hi : i ∈ s)
    (h : ∀ j ∈ s, j ≠ i → g j = f j) : ∑ j ∈ s, g j + f i = ∑ j ∈ s, f j + g i := by
  have hrest : ∑ j ∈ s.erase i, g j = ∑ j ∈ s.erase i, f j := by
    apply Finset.sum_congr rfl
    intro j hj
    exact h j (Finset.mem_of_mem_erase hj) (Finset.ne_of_mem_erase hj)
  rw [← Finset.add_sum_erase s g hi, ← Finset.add_sum_erase s f hi, hrest]
  omega

/-- **One party's state changes**: what holds of a party's state afterwards holds of the new
state, or held of that party before. -/
theorem update_elim {W σ : Type*} [DecidableEq W] {P : σ → Prop} {g : W → σ} {w v : W} {x : σ}
    (h : P (Function.update g w x v)) : v = w ∧ P x ∨ v ≠ w ∧ P (g v) := by
  by_cases hv : v = w
  · subst hv
    rw [Function.update_self] at h
    exact Or.inl ⟨rfl, h⟩
  · rw [Function.update_of_ne hv] at h
    exact Or.inr ⟨hv, h⟩

/-- What held of a party's state holds afterwards, if the change keeps it. -/
theorem update_intro {W σ : Type*} [DecidableEq W] {P : σ → Prop} {g : W → σ} {w v : W} {x : σ}
    (h : P (g v)) (hself : P (g w) → P x) : P (Function.update g w x v) := by
  by_cases hv : v = w
  · subst hv
    rw [Function.update_self]
    exact hself h
  · rw [Function.update_of_ne hv]
    exact h

/-- **No two parties hold the same thing.** -/
def Exclusive {W F : Type*} (held : W → Option F) : Prop :=
  ∀ w w' f, held w = some f → held w' = some f → w = w'

namespace Exclusive

variable {W F : Type*} [DecidableEq W] {held : W → Option F}

/-- A party lets go. -/
theorem release (h : Exclusive held) (w : W) : Exclusive (Function.update held w none) := by
  intro v v' f hv hv'
  have hne : ∀ u, Function.update held w none u = some f → held u = some f := by
    intro u hu
    by_cases huw : u = w
    · subst huw; simp at hu
    · rwa [Function.update_of_ne huw] at hu
  exact h v v' f (hne v hv) (hne v' hv')

/-- A party takes what no other holds. -/
theorem acquire (h : Exclusive held) {w : W} {f : F} (hfree : ∀ w', w' ≠ w → held w' ≠ some f) :
    Exclusive (Function.update held w (some f)) := by
  intro v v' g hv hv'
  by_cases hvw : v = w <;> by_cases hvw' : v' = w
  · rw [hvw, hvw']
  · rw [hvw, Function.update_self, Option.some.injEq] at hv
    rw [Function.update_of_ne hvw'] at hv'
    exact absurd (hv ▸ hv') (hfree v' hvw')
  · rw [hvw', Function.update_self, Option.some.injEq] at hv'
    rw [Function.update_of_ne hvw] at hv
    exact absurd (hv' ▸ hv) (hfree v hvw)
  · rw [Function.update_of_ne hvw] at hv
    rw [Function.update_of_ne hvw'] at hv'
    exact h v v' g hv hv'

/-- A party lets go, keeps what it has, or takes what no other holds. -/
theorem update (h : Exclusive held) {w : W} {x : Option F}
    (hx : x = none ∨ x = held w ∨ ∃ f, x = some f ∧ ∀ w', w' ≠ w → held w' ≠ some f) :
    Exclusive (Function.update held w x) := by
  rcases hx with rfl | rfl | ⟨f, rfl, hfree⟩
  · exact h.release w
  · rw [Function.update_eq_self]; exact h
  · exact h.acquire hfree

end Exclusive

end Coroutine.Lib
