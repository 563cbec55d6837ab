import Coroutine.Proof.TimerStore

/-!
# What each call does to the timers

On a well-formed store a handle operation finds its timer exactly when the timer is in the
set, so that each has two outcomes (`cancel_cases`, `refresh_cases`) or, with the early
return of `reset`, three (`reset_cases`). `reinsert_timer` and `mem_reinsert` say what
taking a timer out, rewriting it and inserting it again changes.
-/

namespace Coroutine

open Lib

namespace TimerManager

variable {addr : ℕ ↪ ℕ} {m : TimerManager}

/-! ## Inserting -/

@[simp] theorem addTimerPtr_timer (t : ℕ) : (m.addTimerPtr addr t).1.timer = m.timer := by
  unfold addTimerPtr
  dsimp only
  split <;> rfl

@[simp] theorem addTimerPtr_made (t : ℕ) : (m.addTimerPtr addr t).1.made = m.made := by
  unfold addTimerPtr
  dsimp only
  split <;> rfl

@[simp] theorem addTimerPtr_timers (t : ℕ) :
    (m.addTimerPtr addr t).1.m_timers = (m.insert addr t).m_timers := by
  unfold addTimerPtr
  dsimp only
  split <;> rfl

/-- **A new timer is armed**, and no other changes. -/
theorem addTimer_timer (now ms : UInt64) (cb : Option TimerCb) (recurring : Bool) (t : ℕ) :
    (m.addTimer addr now ms cb recurring).2.1.timer t =
      if t = m.made then ⟨recurring, ms, now + ms, cb⟩ else m.timer t := by
  simp only [addTimer, addTimerPtr_timer, set]

theorem mem_addTimer (now ms : UInt64) (cb : Option TimerCb) (recurring : Bool) (t : ℕ) :
    t ∈ (m.addTimer addr now ms cb recurring).2.1.m_timers ↔ t = m.made ∨ t ∈ m.m_timers := by
  simp only [addTimer, addTimerPtr_timers]
  exact OrdSet.mem_insert

@[simp] theorem addTimer_made (now ms : UInt64) (cb : Option TimerCb) (recurring : Bool) :
    (m.addTimer addr now ms cb recurring).2.1.made = m.made + 1 := by
  simp only [addTimer, addTimerPtr_made]

/-! ## Operations on a handle -/

theorem reinsert_timer (t : ℕ) (x : Timer) (i : ℕ) :
    (((m.erase t).set t x).insert addr t).timer i = if i = t then x else m.timer i := rfl

theorem mem_reinsert (hs : OrdSet.Sorted (m.before addr) m.m_timers) {t : ℕ} (ht : t ∈ m.m_timers)
    (x : Timer) (i : ℕ) : i ∈ (((m.erase t).set t x).insert addr t).m_timers ↔ i ∈ m.m_timers := by
  have hmem : i ∈ (((m.erase t).set t x).insert addr t).m_timers ↔ i = t ∨ i ∈ (m.erase t).m_timers :=
    OrdSet.mem_insert
  rw [hmem, mem_erase hs]
  constructor
  · rintro (rfl | ⟨-, h⟩)
    · exact ht
    · exact h
  · intro h
    by_cases hi : i = t
    · exact Or.inl hi
    · exact Or.inr ⟨hi, h⟩

/-- Clearing a callback keeps the order. -/
theorem sorted_set_cb (hs : OrdSet.Sorted (m.before addr) m.m_timers) (t : ℕ) (cb : Option TimerCb) :
    OrdSet.Sorted ((m.set t { m.timer t with m_cb := cb }).before addr)
      (m.set t { m.timer t with m_cb := cb }).m_timers := by
  rw [before_set_cb]
  exact hs

theorem mem_cancelled (hs : OrdSet.Sorted (m.before addr) m.m_timers) (t i : ℕ) :
    i ∈ ((m.set t { m.timer t with m_cb := none }).erase t).m_timers ↔ i ≠ t ∧ i ∈ m.m_timers :=
  mem_erase (sorted_set_cb hs t none)

/-- **What `cancel` does**, where every timer with a callback is in the set. -/
theorem cancel_eq (hs : OrdSet.Sorted (m.before addr) m.m_timers) {t : ℕ}
    (harmed : (m.timer t).m_cb.isSome → t ∈ m.m_timers) : m.cancel addr t =
      .ok (if (m.timer t).m_cb.isSome then (true, (m.set t { m.timer t with m_cb := none }).erase t)
        else (false, m)) := by
  unfold cancel
  by_cases hcb : (m.timer t).m_cb.isSome
  · have hfind : (m.set t { m.timer t with m_cb := none }).find addr t = some t :=
      find_of_mem (sorted_set_cb hs t none) (harmed hcb)
    rw [if_pos hcb, if_pos hcb]
    simp only [hfind]
  · rw [if_neg hcb, if_neg hcb]

/-- **What `refresh` does**, where every timer with a callback is in the set. -/
theorem refresh_eq (hs : OrdSet.Sorted (m.before addr) m.m_timers) (now : UInt64) {t : ℕ}
    (harmed : (m.timer t).m_cb.isSome → t ∈ m.m_timers) : m.refresh addr now t =
      if (m.timer t).m_cb.isSome then
        (true, ((m.erase t).set t { m.timer t with m_next := now + (m.timer t).m_ms }).insert addr t)
      else (false, m) := by
  unfold refresh
  by_cases hcb : (m.timer t).m_cb.isSome
  · rw [if_neg (by simpa [Option.isSome_iff_ne_none] using hcb), find_of_mem hs (harmed hcb),
      if_pos hcb]
    rfl
  · rw [if_pos (by simpa [Option.isSome_iff_ne_none] using hcb), if_neg hcb]

/-- **What `reset` does**, where every timer with a callback is in the set. -/
theorem reset_eq (hs : OrdSet.Sorted (m.before addr) m.m_timers) (now ms : UInt64) (from_now : Bool)
    {t : ℕ} (harmed : (m.timer t).m_cb.isSome → t ∈ m.m_timers) : m.reset addr now ms from_now t =
      if ms = (m.timer t).m_ms ∧ from_now = false then (true, m, false)
      else if (m.timer t).m_cb.isSome then
        (true, ((m.erase t).set t
          { m.timer t with
            m_ms := ms
            m_next := (if from_now then now else (m.timer t).m_next - (m.timer t).m_ms) + ms
          }).addTimerPtr addr t)
      else (false, m, false) := by
  unfold reset
  by_cases hsame : ms = (m.timer t).m_ms ∧ from_now = false
  · rw [if_pos hsame, if_pos hsame]
  · rw [if_neg hsame, if_neg hsame]
    by_cases hcb : (m.timer t).m_cb.isSome
    · rw [if_neg (by simpa [Option.isSome_iff_ne_none] using hcb), find_of_mem hs (harmed hcb),
        if_pos hcb]
      rfl
    · rw [if_pos (by simpa [Option.isSome_iff_ne_none] using hcb), if_neg hcb]

/-- **`cancel` takes an armed timer out of the set.** -/
theorem cancel_cases (hm : m.WF addr) (t : ℕ) :
    t ∉ m.m_timers ∧ m.cancel addr t = .ok (false, m) ∨
      t ∈ m.m_timers ∧ m.cancel addr t =
        .ok (true, (m.set t { m.timer t with m_cb := none }).erase t) := by
  rw [cancel_eq hm.sorted (hm.armed t).2]
  by_cases ht : t ∈ m.m_timers
  · exact Or.inr ⟨ht, by rw [if_pos ((hm.armed t).1 ht)]⟩
  · exact Or.inl ⟨ht, by rw [if_neg (fun h => ht ((hm.armed t).2 h))]⟩

/-- A timer that was cancelled is out of the set. -/
theorem not_mem_of_cancel (hm : m.WF addr) {t : ℕ} {b : Bool} {m' : TimerManager}
    (h : m.cancel addr t = .ok (b, m')) : t ∉ m'.m_timers := by
  rcases cancel_cases hm t with ⟨hmem, heq⟩ | ⟨-, heq⟩ <;> rw [heq] at h <;> cases h
  · exact hmem
  · exact fun hmem => ((mem_cancelled hm.sorted t t).1 hmem).1 rfl

/-- **`refresh` re-arms an armed timer.** -/
theorem refresh_cases (hm : m.WF addr) (now : UInt64) (t : ℕ) :
    t ∉ m.m_timers ∧ m.refresh addr now t = (false, m) ∨
      t ∈ m.m_timers ∧ m.refresh addr now t = (true, ((m.erase t).set t
        { m.timer t with m_next := now + (m.timer t).m_ms }).insert addr t) := by
  rw [refresh_eq hm.sorted now (hm.armed t).2]
  by_cases ht : t ∈ m.m_timers
  · exact Or.inr ⟨ht, by rw [if_pos ((hm.armed t).1 ht)]⟩
  · exact Or.inl ⟨ht, by rw [if_neg (fun h => ht ((hm.armed t).2 h))]⟩

/-- **`reset` re-arms an armed timer with the new period**, unless it asks for the period the
timer has and not from now on: then it does not look at the timer. -/
theorem reset_cases (hm : m.WF addr) (now ms : UInt64) (from_now : Bool) (t : ℕ) :
    (ms = (m.timer t).m_ms ∧ from_now = false) ∧ m.reset addr now ms from_now t = (true, m, false) ∨
      ¬ (ms = (m.timer t).m_ms ∧ from_now = false) ∧ t ∉ m.m_timers ∧
        m.reset addr now ms from_now t = (false, m, false) ∨
      ¬ (ms = (m.timer t).m_ms ∧ from_now = false) ∧ t ∈ m.m_timers ∧
        m.reset addr now ms from_now t = (true, ((m.erase t).set t
          { m.timer t with
            m_ms := ms
            m_next := (if from_now then now else (m.timer t).m_next - (m.timer t).m_ms) + ms
          }).addTimerPtr addr t) := by
  rw [reset_eq hm.sorted now ms from_now (hm.armed t).2]
  by_cases hsame : ms = (m.timer t).m_ms ∧ from_now = false
  · exact Or.inl ⟨hsame, if_pos hsame⟩
  · right
    rw [if_neg hsame]
    by_cases ht : t ∈ m.m_timers
    · exact Or.inr ⟨hsame, ht, if_pos ((hm.armed t).1 ht)⟩
    · exact Or.inl ⟨hsame, ht, if_neg (fun h => ht ((hm.armed t).2 h))⟩

/-- Asking for the next timer changes nothing but `m_tickled`. -/
theorem getNextTimer_eq (now_ms : UInt64) :
    (m.getNextTimer now_ms).2 = { m with m_tickled := false } := by
  unfold getNextTimer
  dsimp only
  split
  · rfl
  · split <;> rfl

end TimerManager

end Coroutine
