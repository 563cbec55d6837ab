import Mathlib.Data.List.Basic
import Mathlib.Data.List.Nodup
import Mathlib.Logic.Function.Basic

/-!
# Ledgers

Items are put into places and taken out again; `held` says what each place holds now. A
ledger numbers the items in the order they came, remembers for each place the number of
the item put there last, and lists the numbers taken out, each with the use made of it.

* `Ledger.OK`: the ledger agrees with `held`. Every number is in at most one place or was
  taken out, and no number was taken out twice.
* `register_ok`, `retire_ok`: putting an item into a free place and taking it out keep it.
-/

namespace Coroutine.Lib

/-- Items of type `ρ` in places of type `σ`, taken out for uses of type `υ`. -/
structure Ledger (σ ρ υ : Type*) where
  regs : List ρ
  live : σ → ℕ
  used : List (ℕ × υ)

namespace Ledger

variable {σ ρ υ : Type*}

/-- Nothing has come yet. -/
def empty : Ledger σ ρ υ := { regs := [], live := fun _ => 0, used := [] }

/-- The item of place `x` is taken out for `u`. -/
def retire (l : Ledger σ ρ υ) (x : σ) (u : υ) : Ledger σ ρ υ :=
  { l with used := l.used ++ [(l.live x, u)] }

/-- **The ledger agrees with what the places hold.** -/
structure OK (l : Ledger σ ρ υ) (held : σ → Option ρ) : Prop where
  entry : ∀ x r, held x = some r → l.regs[l.live x]? = some r
  inj : ∀ x y r r', held x = some r → held y = some r' → l.live x = l.live y → x = y
  unused : ∀ x r, held x = some r → l.live x ∉ l.used.map (·.1)
  once : (l.used.map (·.1)).Nodup
  known : ∀ u ∈ l.used, u.1 < l.regs.length
  total : ∀ i, i < l.regs.length → i ∈ l.used.map (·.1) ∨ ∃ x r, held x = some r ∧ l.live x = i

variable {l : Ledger σ ρ υ} {held : σ → Option ρ}

theorem empty_ok : (empty : Ledger σ ρ υ).OK fun _ => none := by
  refine ⟨?_, ?_, ?_, List.nodup_nil, ?_, ?_⟩
  · intro x r h; cases h
  · intro x y r r' h; cases h
  · intro x r h; cases h
  · intro u h; cases h
  · intro i h; exact absurd h (Nat.not_lt_zero i)

theorem OK.live_lt (h : l.OK held) {x : σ} {r : ρ} (hx : held x = some r) :
    l.live x < l.regs.length :=
  (List.getElem?_eq_some_iff.1 (h.entry x r hx)).1

variable [DecidableEq σ]

/-- Item `r` comes into place `x`. -/
def register (l : Ledger σ ρ υ) (x : σ) (r : ρ) : Ledger σ ρ υ :=
  { l with regs := l.regs ++ [r], live := Function.update l.live x l.regs.length }

/-- **An item comes into a free place.** -/
theorem register_ok (h : l.OK held) {x : σ} (hx : held x = none) (r : ρ) :
    (l.register x r).OK (Function.update held x (some r)) := by
  have hself : (l.register x r).live x = l.regs.length := Function.update_self ..
  have hlive : ∀ y, y ≠ x → (l.register x r).live y = l.live y := fun y hy =>
    Function.update_of_ne hy ..
  have hheld : ∀ y, y ≠ x → Function.update held x (some r) y = held y := fun y hy =>
    Function.update_of_ne hy ..
  refine ⟨?_, ?_, ?_, h.once, ?_, ?_⟩
  · intro y r' hy
    show (l.regs ++ [r])[(l.register x r).live y]? = some r'
    by_cases hyx : y = x
    · subst hyx
      rw [Function.update_self] at hy
      rw [hself, List.getElem?_concat_length, hy]
    · rw [hheld y hyx] at hy
      rw [hlive y hyx, List.getElem?_append_left (h.live_lt hy)]
      exact h.entry y r' hy
  · intro y z r₁ r₂ hy hz heq
    -- the new number is larger than every number in another place
    by_cases hyx : y = x <;> by_cases hzx : z = x
    · rw [hyx, hzx]
    · rw [hheld z hzx] at hz
      have hlt := h.live_lt hz
      rw [hyx, hself, hlive z hzx] at heq
      omega
    · rw [hheld y hyx] at hy
      have hlt := h.live_lt hy
      rw [hzx, hself, hlive y hyx] at heq
      omega
    · rw [hheld y hyx] at hy
      rw [hheld z hzx] at hz
      rw [hlive y hyx, hlive z hzx] at heq
      exact h.inj y z r₁ r₂ hy hz heq
  · intro y r' hy hmem
    by_cases hyx : y = x
    · rw [hyx, hself] at hmem
      obtain ⟨u, hu, heq⟩ := List.mem_map.1 hmem
      have hlt := h.known u hu
      omega
    · rw [hheld y hyx] at hy
      rw [hlive y hyx] at hmem
      exact h.unused y r' hy hmem
  · intro u hu
    have hlt := h.known u hu
    simp only [register, List.length_append, List.length_singleton]
    omega
  · intro i hi
    simp only [register, List.length_append, List.length_singleton] at hi
    by_cases hlast : i = l.regs.length
    · exact Or.inr ⟨x, r, Function.update_self .., by rw [hself, hlast]⟩
    · rcases h.total i (by omega) with hu | ⟨y, r', hy, rfl⟩
      · exact Or.inl hu
      · have hyx : y ≠ x := by rintro rfl; rw [hx] at hy; cases hy
        exact Or.inr ⟨y, r', by rw [hheld y hyx]; exact hy, hlive y hyx⟩

/-- **The item of a place is taken out.** -/
theorem retire_ok (h : l.OK held) {x : σ} {r : ρ} (hx : held x = some r) (u : υ) :
    (l.retire x u).OK (Function.update held x none) := by
  have hne : ∀ y r', Function.update held x none y = some r' → y ≠ x ∧ held y = some r' := by
    intro y r' hy
    by_cases hyx : y = x
    · subst hyx; simp at hy
    · rw [Function.update_of_ne hyx] at hy; exact ⟨hyx, hy⟩
  refine ⟨?_, ?_, ?_, ?_, ?_, ?_⟩
  · intro y r' hy; exact h.entry y r' (hne y r' hy).2
  · intro y z r₁ r₂ hy hz heq
    exact h.inj y z r₁ r₂ (hne y r₁ hy).2 (hne z r₂ hz).2 heq
  · intro y r' hy hmem
    obtain ⟨hyx, hy'⟩ := hne y r' hy
    simp only [retire, List.map_append, List.map_cons, List.map_nil, List.mem_append,
      List.mem_singleton] at hmem
    rcases hmem with hmem | heq
    · exact h.unused y r' hy' hmem
    · exact hyx (h.inj y x r' r hy' hx heq)
  · have hun := h.unused x r hx
    simp only [retire, List.map_append, List.map_cons, List.map_nil]
    refine List.nodup_append.2 ⟨h.once, List.nodup_singleton _, ?_⟩
    intro i hi j hj hij
    rw [List.mem_singleton] at hj
    subst hij hj
    exact hun hi
  · intro v hv
    simp only [retire, List.mem_append, List.mem_singleton] at hv
    rcases hv with hv | rfl
    · exact h.known v hv
    · exact h.live_lt hx
  · intro i hi
    simp only [retire, List.map_append, List.map_cons, List.map_nil, List.mem_append,
      List.mem_singleton]
    rcases h.total i hi with hu | ⟨y, r', hy, rfl⟩
    · exact Or.inl (Or.inl hu)
    · by_cases hyx : y = x
      · subst hyx; exact Or.inl (Or.inr rfl)
      · exact Or.inr ⟨y, r', by rw [Function.update_of_ne hyx]; exact hy, rfl⟩

end Ledger

end Coroutine.Lib
