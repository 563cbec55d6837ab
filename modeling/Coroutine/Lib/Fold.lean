import Mathlib.Data.List.Nodup

/-!
# Folds whose steps each belong to a key

A fold over elements of distinct keys, where the step for an element changes the value at its
key and no other, changes each value once (`foldlM_keyed`, `foldl_keyed`). A fold that may
fail succeeds when every step would (`foldlM_ok_iff`), and keeps what every step keeps
(`foldlM_inv`).
-/

namespace Coroutine.Lib

variable {σ ε δ κ ν : Type*}

/-- **A fallible fold succeeds** exactly when each of its steps does, if that depends on the
element only. -/
theorem foldlM_ok_iff {I : σ → Prop} {step : σ → δ → Except ε σ} {P : δ → Prop}
    (hI : ∀ s d s', I s → step s d = .ok s' → I s')
    (hstep : ∀ s d, I s → ((∃ s', step s d = .ok s') ↔ P d)) {ds : List δ} {s : σ} (hs : I s) :
    (∃ s', ds.foldlM step s = .ok s') ↔ ∀ d ∈ ds, P d := by
  induction ds generalizing s with
  | nil => exact ⟨fun _ d hd => absurd hd List.not_mem_nil, fun _ => ⟨s, rfl⟩⟩
  | cons d ds ih =>
    rw [List.foldlM_cons, List.forall_mem_cons, ← hstep s d hs]
    cases h : step s d with
    | error e =>
      constructor
      · rintro ⟨s', hs'⟩; cases hs'
      · rintro ⟨⟨s', hs'⟩, -⟩; cases hs'
    | ok t =>
      have hrest := ih (hI s d t hs h)
      exact ⟨fun hex => ⟨⟨t, rfl⟩, hrest.1 hex⟩, fun hall => hrest.2 hall.2⟩

/-- **The invariant rule for folds** over elements that meet a condition. -/
theorem foldlM_inv {I : σ → Prop} {P : δ → Prop} {step : σ → δ → Except ε σ}
    (hstep : ∀ s d s', I s → P d → step s d = .ok s' → I s') {ds : List δ} (hds : ∀ d ∈ ds, P d)
    {s s' : σ} (hs : I s) (h : ds.foldlM step s = .ok s') : I s' := by
  induction ds generalizing s with
  | nil => cases h; exact hs
  | cons d ds ih =>
    rw [List.foldlM_cons] at h
    obtain ⟨hd, hrest⟩ := List.forall_mem_cons.1 hds
    cases hone : step s d with
    | error e => rw [hone] at h; cases h
    | ok t =>
      rw [hone] at h
      exact ih hrest (hstep s d t hs hd hone) h

variable [DecidableEq κ] {view : σ → κ → ν} {key : δ → κ} {f : δ → ν → ν} {I : σ → Prop}

/-- **Each value changes once.** -/
theorem foldlM_keyed {step : σ → δ → Except ε σ}
    (hstep : ∀ s d s', I s → step s d = .ok s' →
      I s' ∧ ∀ k, view s' k = if k = key d then f d (view s k) else view s k)
    {ds : List δ} (hnodup : (ds.map key).Nodup) {s s' : σ} (hs : I s)
    (h : ds.foldlM step s = .ok s') :
    I s' ∧ ∀ k, view s' k = (ds.find? (key · = k)).elim (view s k) (fun d => f d (view s k)) := by
  induction ds generalizing s with
  | nil => cases h; exact ⟨hs, fun _ => rfl⟩
  | cons d ds ih =>
    rw [List.foldlM_cons] at h
    rw [List.map_cons, List.nodup_cons] at hnodup
    cases hd : step s d with
    | error e => rw [hd] at h; cases h
    | ok t =>
      rw [hd] at h
      obtain ⟨ht, hview⟩ := hstep s d t hs hd
      obtain ⟨hs', hrest⟩ := ih hnodup.2 ht h
      refine ⟨hs', fun k => ?_⟩
      rw [hrest k, hview k, List.find?_cons]
      by_cases hk : k = key d
      · -- the rest of the list has no element of this key
        have hnone : ds.find? (key · = k) = none := by
          rw [List.find?_eq_none]
          intro x hx
          have hne : key x ≠ key d := fun heq => hnodup.1 (heq ▸ List.mem_map_of_mem hx)
          simpa [hk] using hne
        rw [if_pos hk, hnone]
        simp [hk]
      · rw [if_neg hk]
        simp [Ne.symm hk]

/-- The same of a fold that cannot fail. -/
theorem foldl_keyed {step : σ → δ → σ}
    (hstep : ∀ s d, I s →
      I (step s d) ∧ ∀ k, view (step s d) k = if k = key d then f d (view s k) else view s k)
    {ds : List δ} (hnodup : (ds.map key).Nodup) {s : σ} (hs : I s) :
    I (ds.foldl step s) ∧ ∀ k, view (ds.foldl step s) k =
      (ds.find? (key · = k)).elim (view s k) (fun d => f d (view s k)) := by
  have hpure : ds.foldlM (fun s d => (.ok (step s d) : Except Empty σ)) s = .ok (ds.foldl step s) :=
    List.foldlM_pure
  have hok : ∀ s d s', I s → (fun s d => (.ok (step s d) : Except Empty σ)) s d = .ok s' →
      I s' ∧ ∀ k, view s' k = if k = key d then f d (view s k) else view s k := by
    intro s d s' hs h
    cases h
    exact hstep s d hs
  exact foldlM_keyed hok hnodup hs hpure

end Coroutine.Lib
