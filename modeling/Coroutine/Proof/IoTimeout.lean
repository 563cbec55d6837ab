import Coroutine.Spec.IoThreads
import Mathlib.Tactic.SplitIfs

/-!
# The timeout of `epoll_wait`

`idle()` compares its 64-bit wait with `MAX_TIMEOUT` after a cast to `int`, and casts what
is left once more for the call. The cast keeps the low 32 bits (`toInt_cast`), so a wait of
`2 ^ 31` ms is below the bound, and is a negative timeout.

* `epollTimeouts_eq`: a retry passes the timeout of the first call.
* `timeouts_bounded_iff`: for which waits the timeout is between 0 and 3000 and no longer
  than the wait.
-/

namespace Coroutine

/-- The cast of a 64-bit value to `int`. -/
theorem toInt_cast (x : UInt64) : x.toUInt32.toInt32.toInt =
    if x.toNat % 2 ^ 32 < 2 ^ 31 then ((x.toNat % 2 ^ 32 : ℕ) : ℤ)
    else ((x.toNat % 2 ^ 32 : ℕ) : ℤ) - 2 ^ 32 := by
  have hbits : x.toUInt32.toInt32.toInt = x.toUInt32.toBitVec.toInt := rfl
  have hnat : x.toUInt32.toBitVec.toNat = x.toNat % 2 ^ 32 := by
    rw [UInt32.toNat_toBitVec, UInt64.toNat_toUInt32]
  rw [hbits, BitVec.toInt_eq_toNat_cond, hnat]
  split_ifs <;> omega

/-- **The clamp, by the low 32 bits of the wait.** -/
theorem clampTimeout_eq (d : UInt64) : clampTimeout d =
    if d = ~~~ 0 ∨ 3000 < d.toNat % 2 ^ 32 ∧ d.toNat % 2 ^ 32 < 2 ^ 31 then 3000 else d := by
  have hmax : (3000 : Int32).toInt = 3000 := rfl
  have hcast := toInt_cast d
  unfold clampTimeout
  dsimp only
  by_cases hnone : d = ~~~ 0
  · rw [if_neg (not_not.2 hnone), if_pos (Or.inl hnone)]
    rfl
  rw [if_pos hnone]
  by_cases hlong : 3000 < d.toNat % 2 ^ 32 ∧ d.toNat % 2 ^ 32 < 2 ^ 31
  · rw [if_pos (Or.inr hlong), if_pos]
    · rfl
    · rw [gt_iff_lt, Int32.lt_iff_toInt_lt, hmax, hcast, if_pos hlong.2]
      omega
  · rw [if_neg (not_or.2 ⟨hnone, hlong⟩), if_neg]
    rw [gt_iff_lt, Int32.lt_iff_toInt_lt, hmax, hcast]
    split_ifs <;> omega

/-- Clamping again changes nothing. -/
theorem clampTimeout_clampTimeout (d : UInt64) : clampTimeout (clampTimeout d) = clampTimeout d := by
  have hmax : clampTimeout 3000 = 3000 := by decide
  rw [clampTimeout_eq d]
  split
  · exact hmax
  · rename_i hleft
    rw [clampTimeout_eq d, if_neg hleft]

/-- The first timeout is the one of a wait without interrupts. -/
theorem waitTimeout_eq (d : UInt64) : (clampTimeout d).toUInt32.toInt32 = waitTimeout d := by
  unfold clampTimeout waitTimeout
  dsimp only
  split_ifs <;> rfl

/-- **A retry passes the timeout of the first call.** -/
theorem epollTimeouts_eq (d : UInt64) (interrupts : ℕ) :
    epollTimeouts interrupts d = List.replicate (interrupts + 1) (waitTimeout d) := by
  induction interrupts generalizing d with
  | zero => rw [epollTimeouts, waitTimeout_eq]; rfl
  | succ n ih =>
    have hsame : waitTimeout (clampTimeout d) = waitTimeout d := by
      rw [← waitTimeout_eq (clampTimeout d), clampTimeout_clampTimeout, waitTimeout_eq]
    rw [epollTimeouts, ih, waitTimeout_eq, hsame]
    rfl

/-- The timeout of a wait, by its low 32 bits. -/
theorem waitTimeout_toInt (d : UInt64) : (waitTimeout d).toInt =
    if d = ~~~ 0 then 3000
    else if d.toNat % 2 ^ 32 < 2 ^ 31 then ((min 3000 (d.toNat % 2 ^ 32) : ℕ) : ℤ)
    else ((d.toNat % 2 ^ 32 : ℕ) : ℤ) - 2 ^ 32 := by
  have hmax : (3000 : UInt64).toUInt32.toInt32.toInt = 3000 := rfl
  rw [← waitTimeout_eq, clampTimeout_eq]
  by_cases hnone : d = ~~~ 0
  · rw [if_pos (Or.inl hnone), if_pos hnone]
    exact hmax
  rw [if_neg hnone]
  by_cases hlong : 3000 < d.toNat % 2 ^ 32 ∧ d.toNat % 2 ^ 32 < 2 ^ 31
  · rw [if_pos (Or.inr hlong), if_pos hlong.2, hmax]
    omega
  · rw [if_neg (not_or.2 ⟨hnone, hlong⟩), toInt_cast]
    split_ifs <;> omega

/-- The timeout is between 0 and 3000 and no longer than the wait for the next timer, if there
is one. -/
def Bounded (d : UInt64) (timeout : Int32) : Prop :=
  0 ≤ timeout.toInt ∧ timeout.toInt ≤ 3000 ∧ (d ≠ ~~~ 0 → timeout.toInt ≤ d.toNat)

instance (d : UInt64) (timeout : Int32) : Decidable (Bounded d timeout) :=
  inferInstanceAs (Decidable (_ ∧ _ ∧ (_ → _)))

/-- **Which waits are clamped right**: none at all, and those whose low 32 bits are no negative
`int`. -/
theorem timeouts_bounded_iff (d : UInt64) (interrupts : ℕ) :
    (∀ timeout ∈ epollTimeouts interrupts d, Bounded d timeout) ↔
      d = ~~~ 0 ∨ d.toNat % 2 ^ 32 < 2 ^ 31 := by
  have hall : (∀ timeout ∈ epollTimeouts interrupts d, Bounded d timeout) ↔
      Bounded d (waitTimeout d) := by
    rw [epollTimeouts_eq]
    constructor
    · intro h
      exact h _ (List.mem_replicate.2 ⟨Nat.succ_ne_zero _, rfl⟩)
    · intro h timeout hmem
      rw [(List.mem_replicate.1 hmem).2]
      exact h
  have hmod : d.toNat % 2 ^ 32 ≤ d.toNat := Nat.mod_le _ _
  have hlt : d.toNat % 2 ^ 32 < 2 ^ 32 := Nat.mod_lt _ (by decide)
  rw [hall, Bounded, waitTimeout_toInt]
  by_cases hnone : d = ~~~ 0
  · simp [hnone]
  rw [if_neg hnone]
  by_cases hlow : d.toNat % 2 ^ 32 < 2 ^ 31
  · rw [if_pos hlow]
    constructor
    · exact fun _ => Or.inr hlow
    · exact fun _ => ⟨by omega, by omega, fun _ => by omega⟩
  · rw [if_neg hlow]
    constructor
    · rintro ⟨hpos, -, -⟩
      omega
    · rintro (hnone' | hlow')
      · exact absurd hnone' hnone
      · exact absurd hlow' hlow

/-- A timer of `2 ^ 31` ms: the worker waits without bound. -/
theorem month_unbounded :
    let m := ((TimerManager.init 5).addTimer (.refl ℕ) 5 0x80000000 (some (.fn 7)) false).2.1
    m.m_timers = [0] ∧ ¬ (∀ timeout ∈ epollTimeouts 0 (m.getNextTimer 5).1,
      Bounded (m.getNextTimer 5).1 timeout) ∧
      ∀ timeout ∈ epollTimeouts 0 (m.getNextTimer 5).1, wakeupTime 5 timeout = none := by
  intro m
  have hnext : (m.getNextTimer 5).1 = 0x80000000 := by decide
  have hwaits : epollTimeouts 0 0x80000000 = [-2147483648] := by decide
  rw [hnext, hwaits]
  refine ⟨by decide, ?_, ?_⟩
  · intro h
    have hpos : 0 ≤ (-2147483648 : Int32).toInt := (h _ (List.mem_singleton.2 rfl)).1
    exact absurd hpos (by decide)
  · intro timeout h
    obtain rfl := List.mem_singleton.1 h
    decide

end Coroutine
