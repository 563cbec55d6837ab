import Mathlib.Data.List.Basic
import Mathlib.Logic.Function.Basic

/-!
# Shared ownership

Objects with reference counts. A handle is made with its object, copied, or dropped; the last one
that is dropped destroys the object, unless its destructor refuses. Who has the handles is not part
of the counts: `Sound` says that there are owners for them.

* `Sound.make`, `Sound.copy`, `Sound.drop`: what each operation needs, and what it leaves;
  `Sound.pass`: a copy takes the place of the original.
* `Sound.alive`: what has an owner is not destroyed.
-/

namespace Coroutine.Lib

/-- What is done to a handle of an object. -/
inductive HandleOp (F : Type*) where
  | make (f : F)
  | copy (f : F)
  | drop (f : F)

/-- The counts, the objects destroyed, in their order, and whether something was done to a handle
that does not exist, or a destructor has refused. -/
structure Shared (F : Type*) where
  use_count : F → ℕ
  destroyed : List F
  broken : Bool

namespace Shared

variable {F : Type*} [DecidableEq F]

/-- No object yet. -/
def empty : Shared F := { use_count := fun _ => 0, destroyed := [], broken := false }

/-- One operation, where the destructors of some objects refuse. -/
def op (refuses : F → Prop) [DecidablePred refuses] (s : Shared F) : HandleOp F → Shared F
  | .make f => { s with use_count := Function.update s.use_count f 1 }
  | .copy f =>
    if s.use_count f = 0 then { s with broken := true }
    else { s with use_count := Function.update s.use_count f (s.use_count f + 1) }
  | .drop f =>
    match s.use_count f with
    | 0 => { s with broken := true }
    | 1 =>
      if refuses f then { s with broken := true }
      else { s with use_count := Function.update s.use_count f 0, destroyed := s.destroyed ++ [f] }
    | n + 2 => { s with use_count := Function.update s.use_count f (n + 1) }

/-- **The counts are right**: each is the number of handles that there are, and of the objects made
those are destroyed, each once, that have no handle left. -/
structure Sound (owners : F → ℕ) (made : F → Prop) (s : Shared F) : Prop where
  count : ∀ f, s.use_count f = owners f
  once : s.destroyed.Nodup
  destroyed : ∀ f, f ∈ s.destroyed ↔ made f ∧ owners f = 0
  unbroken : s.broken = false

variable {owners owners' : F → ℕ} {made made' : F → Prop} {s : Shared F} {f : F}

omit [DecidableEq F] in
theorem Sound.congr (h : s.Sound owners made) (howners : ∀ f, owners' f = owners f)
    (hmade : ∀ f, made' f ↔ made f) : s.Sound owners' made' := by
  refine ⟨fun f => (h.count f).trans (howners f).symm, h.once, fun f => ?_, h.unbroken⟩
  rw [howners, hmade]
  exact h.destroyed f

omit [DecidableEq F] in
/-- **What has an owner is not destroyed.** -/
theorem Sound.alive (h : s.Sound owners made) (hf : 0 < owners f) : f ∉ s.destroyed := by
  intro hmem
  have hzero := ((h.destroyed f).1 hmem).2
  omega

omit [DecidableEq F] in
theorem empty_sound : (empty : Shared F).Sound (fun _ => 0) (fun _ => False) :=
  ⟨fun _ => rfl, List.nodup_nil, by simp [empty], rfl⟩

variable (refuses : F → Prop) [DecidablePred refuses]

/-- A new object. -/
theorem Sound.make (h : s.Sound owners made) (hnew : ¬ made f)
    (howner : owners' f = 1) (hothers : ∀ g, g ≠ f → owners' g = owners g)
    (hmade : ∀ g, made' g ↔ made g ∨ g = f) : (s.op refuses (.make f)).Sound owners' made' := by
  refine ⟨fun g => ?_, h.once, fun g => ?_, h.unbroken⟩
  · show Function.update s.use_count f 1 g = owners' g
    by_cases hg : g = f
    · subst hg
      rw [Function.update_self, howner]
    · rw [Function.update_of_ne hg, hothers g hg]
      exact h.count g
  · show g ∈ s.destroyed ↔ made' g ∧ owners' g = 0
    rw [h.destroyed, hmade]
    by_cases hg : g = f
    · subst hg
      have hone : owners' g ≠ 0 := by omega
      simp [hnew, hone]
    · rw [hothers g hg]
      simp [hg]

/-- A handle is copied that there is. -/
theorem Sound.copy (h : s.Sound owners made) (hpos : 0 < owners f)
    (howner : owners' f = owners f + 1) (hothers : ∀ g, g ≠ f → owners' g = owners g) :
    (s.op refuses (.copy f)).Sound owners' made := by
  have hcount := h.count f
  have hstep : s.op refuses (.copy f) =
      { s with use_count := Function.update s.use_count f (s.use_count f + 1) } :=
    if_neg (by omega)
  rw [hstep]
  refine ⟨fun g => ?_, h.once, fun g => ?_, h.unbroken⟩
  · show Function.update s.use_count f (s.use_count f + 1) g = owners' g
    by_cases hg : g = f
    · subst hg
      rw [Function.update_self]
      omega
    · rw [Function.update_of_ne hg, hothers g hg]
      exact h.count g
  · show g ∈ s.destroyed ↔ made g ∧ owners' g = 0
    rw [h.destroyed]
    by_cases hg : g = f
    · subst hg
      have hold : owners g ≠ 0 := by omega
      have hnew : owners' g ≠ 0 := by omega
      simp [hold, hnew]
    · rw [hothers g hg]

/-- **A handle is dropped**: if it was the last one the object is destroyed, and must not refuse. -/
theorem Sound.drop (h : s.Sound owners made) (hmade : made f) (howner : owners f = owners' f + 1)
    (hothers : ∀ g, g ≠ f → owners' g = owners g) (hlast : owners' f = 0 → ¬ refuses f) :
    (s.op refuses (.drop f)).Sound owners' made := by
  have hcount := h.count f
  have halive : f ∉ s.destroyed := h.alive (by omega)
  cases hn : owners' f with
  | zero =>
    have hone : s.use_count f = 1 := by omega
    have hstep : s.op refuses (.drop f) =
        { s with use_count := Function.update s.use_count f 0, destroyed := s.destroyed ++ [f] } := by
      unfold op
      dsimp only
      rw [hone]
      exact if_neg (hlast hn)
    rw [hstep]
    refine ⟨fun g => ?_, ?_, fun g => ?_, h.unbroken⟩
    · show Function.update s.use_count f 0 g = owners' g
      by_cases hg : g = f
      · subst hg
        rw [Function.update_self, hn]
      · rw [Function.update_of_ne hg, hothers g hg]
        exact h.count g
    · rw [List.nodup_append]
      refine ⟨h.once, by simp, ?_⟩
      intro g hg g' hg' heq
      rw [List.mem_singleton] at hg'
      subst hg'
      subst heq
      exact halive hg
    · show g ∈ s.destroyed ++ [f] ↔ made g ∧ owners' g = 0
      rw [List.mem_append, List.mem_singleton, h.destroyed]
      by_cases hg : g = f
      · subst hg
        simp [hmade, hn]
      · rw [hothers g hg]
        simp [hg]
  | succ n =>
    have htwo : s.use_count f = n + 2 := by omega
    have hstep : s.op refuses (.drop f) =
        { s with use_count := Function.update s.use_count f (n + 1) } := by
      unfold op
      dsimp only
      rw [htwo]
    rw [hstep]
    refine ⟨fun g => ?_, h.once, fun g => ?_, h.unbroken⟩
    · show Function.update s.use_count f (n + 1) g = owners' g
      by_cases hg : g = f
      · subst hg
        rw [Function.update_self, hn]
      · rw [Function.update_of_ne hg, hothers g hg]
        exact h.count g
    · show g ∈ s.destroyed ↔ made g ∧ owners' g = 0
      rw [h.destroyed]
      by_cases hg : g = f
      · subst hg
        have hold : owners g ≠ 0 := by omega
        have hnew : owners' g ≠ 0 := by omega
        simp [hold, hnew]
      · rw [hothers g hg]

/-- A handle is copied, and the one it was copied from is dropped. -/
theorem Sound.pass (h : s.Sound owners made) (hmade : made f) (hpos : 0 < owners f) :
    (([.copy f, .drop f] : List (HandleOp F)).foldl (op refuses) s).Sound owners made := by
  have hcopy : (s.op refuses (.copy f)).Sound (Function.update owners f (owners f + 1)) made :=
    h.copy refuses hpos (Function.update_self _ _ _) fun g hg => Function.update_of_ne hg _ _
  refine hcopy.drop refuses hmade ?_ ?_ ?_
  · rw [Function.update_self]
  · intro g hg
    rw [Function.update_of_ne hg]
  · intro hzero
    omega

end Shared

end Coroutine.Lib
