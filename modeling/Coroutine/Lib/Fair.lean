import Coroutine.Lib.Run
import Mathlib.Order.Filter.AtTopBot.Basic

/-!
# Progress in infinite runs

A schedule says which action is taken at each time, for ever. What holds in the run is a predicate
on times; `LeadsTo p q` says that whenever `p` holds, `q` holds then or later.

* `stateAt_inv`: what every step of the run keeps.
* `stateAt_add`: a stretch of the schedule is a finite run.
* `LeadsTo.trans`, `LeadsTo.induct`: how such facts compose, the second by a measure.
* `leadsTo_of_fair`: what an action brings about that is taken again and again, when no other step
  takes away what it needs.
* `eventually_of_stable`: what comes about and stays; Mathlib's `eventually_all` then puts finitely
  many such facts together.
-/

namespace Coroutine.Lib

open Filter

section Runs

variable {σ α : Type*} {step : σ → α → σ} {s : σ} {acts : ℕ → α}

/-- The state at time `n`. -/
def stateAt (step : σ → α → σ) (s : σ) (acts : ℕ → α) : ℕ → σ
  | 0 => s
  | n + 1 => step (stateAt step s acts n) (acts n)

theorem stateAt_inv {I : σ → Prop} (hs : I s)
    (hI : ∀ n, I (stateAt step s acts n) → I (stateAt step s acts (n + 1))) (n : ℕ) :
    I (stateAt step s acts n) := by
  induction n with
  | zero => exact hs
  | succ n ih => exact hI n ih

/-- A stretch of the schedule is a run of finitely many actions. -/
theorem stateAt_add (as : List α) : ∀ n : ℕ, (∀ i (hi : i < as.length), acts (n + i) = as[i]) →
    stateAt step s acts (n + as.length) = run step (stateAt step s acts n) as := by
  induction as with
  | nil => exact fun _ _ => rfl
  | cons a as ih =>
    intro n h
    have hfirst : acts n = a := h 0 (Nat.succ_pos _)
    have hrest : ∀ i (hi : i < as.length), acts (n + 1 + i) = as[i] := by
      intro i hi
      rw [Nat.add_assoc, Nat.add_comm 1 i]
      exact h (i + 1) (Nat.succ_lt_succ hi)
    have hnext : stateAt step s acts (n + 1) = step (stateAt step s acts n) a := by
      rw [← hfirst]
      rfl
    rw [List.length_cons, Nat.add_comm as.length 1, ← Nat.add_assoc, ih (n + 1) hrest, hnext]
    rfl

end Runs

/-- What a predicate on times leads to. -/
def LeadsTo (p q : ℕ → Prop) : Prop := ∀ n, p n → ∃ m, n ≤ m ∧ q m

variable {p q r a : ℕ → Prop}

theorem LeadsTo.trans (hpq : LeadsTo p q) (hqr : LeadsTo q r) : LeadsTo p r := by
  intro n hn
  have ⟨m, hm, hq⟩ := hpq n hn
  have ⟨k, hk, hr⟩ := hqr m hq
  exact ⟨k, hm.trans hk, hr⟩

/-- **By a measure**: while `p` holds it can be made smaller, or `q` is reached. -/
theorem LeadsTo.induct (μ : ℕ → ℕ)
    (h : ∀ k, LeadsTo (fun n => p n ∧ μ n = k) fun n => q n ∨ p n ∧ μ n < k) : LeadsTo p q := by
  have hall : ∀ k n, p n → μ n = k → ∃ m, n ≤ m ∧ q m := by
    intro k
    induction k using Nat.strong_induction_on with
    | _ k ih =>
      intro n hp hk
      obtain ⟨m, hnm, hq | ⟨hp', hlt⟩⟩ := h k n ⟨hp, hk⟩
      · exact ⟨m, hnm, hq⟩
      · obtain ⟨j, hmj, hq⟩ := ih (μ m) hlt m hp' rfl
        exact ⟨j, Nat.le_trans hnm hmj, hq⟩
  exact fun n hp => hall (μ n) n hp rfl

/-- **An action taken again and again** brings about `q`, where every step from `p` stays in `p` or
goes to `q`, and the action goes to `q`. -/
theorem leadsTo_of_fair (hfair : ∃ᶠ n in atTop, a n) (hkeep : ∀ n, p n → p (n + 1) ∨ q (n + 1))
    (hact : ∀ n, p n → a n → q (n + 1)) : LeadsTo p q := by
  intro n hp
  obtain ⟨m, hnm, ham⟩ := frequently_atTop.1 hfair n
  by_contra hno
  have hnever : ∀ k, n ≤ k → ¬ q k := fun k hk hq => hno ⟨k, hk, hq⟩
  have hstay : ∀ d, p (n + d) := by
    intro d
    induction d with
    | zero => exact hp
    | succ d ih => exact (hkeep (n + d) ih).resolve_right (hnever _ (by omega))
  have hm : p m := by
    have hd := hstay (m - n)
    rwa [Nat.add_sub_cancel' hnm] at hd
  exact hnever (m + 1) (by omega) (hact m hm ham)

/-- What comes about and stays. -/
theorem eventually_of_stable (h : ∃ n, p n) (hstable : ∀ n, p n → p (n + 1)) :
    ∀ᶠ n in atTop, p n := by
  obtain ⟨n, hp⟩ := h
  refine eventually_atTop.2 ⟨n, fun m hnm => ?_⟩
  induction m, hnm using Nat.le_induction with
  | base => exact hp
  | succ m _ ih => exact hstable m ih

end Coroutine.Lib
