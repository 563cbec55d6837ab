import Coroutine.Lib.Run
import Coroutine.Proof.TimerStore
import Coroutine.Spec.IoThreads

/-!
# Timers inserted at the front

`m_tickled` keeps a second insertion at the front from tickling again.

* `call_front`: a timer that comes first tickles, unless `m_tickled` says that one did.
* `call_tickled`: only a call that tickles sets `m_tickled`.
* `getNextTimer_tickled`: asking for the next timer resets it; taking the expired ones does not
  (`listExpired_tickled`).
-/

namespace Coroutine

open Lib

namespace TimerManager

variable {addr : ℕ ↪ ℕ} {m m' : TimerManager}

/-- A timer that comes first tickles, unless one before it has. -/
theorem addTimerPtr_front {val : ℕ} (h : (m.addTimerPtr addr val).1.m_timers.head? = some val) :
    (m.addTimerPtr addr val).2 = true ∨ m.m_tickled = true := by
  by_cases htickled : m.m_tickled = true
  · exact Or.inr htickled
  · left
    have hhead : (m.insert addr val).m_timers.head? = some val := by
      unfold addTimerPtr at h
      dsimp only at h
      split at h <;> exact h
    simp only [addTimerPtr, decide_eq_true_eq]
    have hflag : m.m_tickled = false := by simpa using htickled
    exact ⟨hhead, hflag⟩

theorem addTimerPtr_tickled {val : ℕ} (h : (m.addTimerPtr addr val).1.m_tickled = true) :
    m.m_tickled = true ∨ (m.addTimerPtr addr val).2 = true := by
  by_cases hfront : (m.insert addr val).m_timers.head? = some val ∧
      (m.insert addr val).m_tickled = false
  · exact Or.inr (decide_eq_true hfront)
  · left
    simp only [addTimerPtr, if_neg hfront] at h
    exact h

/-- Taking the expired timers does not reset the flag. -/
theorem listExpired_tickled {now_ms : UInt64} {probe : ℕ} {cbs : List (Option TimerCb)}
    (h : m.listExpired addr now_ms probe = .ok (cbs, m')) : m'.m_tickled = m.m_tickled := by
  have hloop : ∀ (l : List ℕ) (acc : List (Option TimerCb) × TimerManager),
      (l.foldl (expireOne addr now_ms) acc).2.m_tickled = acc.2.m_tickled := by
    intro l
    induction l with
    | nil => intro acc; rfl
    | cons t l ih =>
      intro acc
      rw [List.foldl_cons, ih]
      -- a recurring timer goes back into the set without `addTimer`
      unfold expireOne
      dsimp only
      split <;> rfl
  have hexpire : ∀ (rollover : Bool), (TimerManager.expire addr
      { m with m_previousTime := now_ms } rollover now_ms probe).2.m_tickled = m.m_tickled :=
    fun rollover => hloop _ _
  rw [listExpired_eq] at h
  dsimp only at h
  split at h
  · have hkeep := hexpire true
    rw [Except.ok.inj h] at hkeep; exact hkeep
  · split at h
    · cases h
    · split at h
      · rw [← (Prod.mk.inj (Except.ok.inj h)).2]
      · have hkeep := hexpire false
        rw [Except.ok.inj h] at hkeep; exact hkeep

theorem getNextTimer_tickled (now_ms : UInt64) : (m.getNextTimer now_ms).2.m_tickled = false := by
  unfold getNextTimer
  dsimp only
  split
  · rfl
  · split <;> rfl

end TimerManager

namespace TimerOp

variable {addr : ℕ ↪ ℕ} {m m' : TimerManager} {o : TimerOp}

/-- `m_tickled` is set by a call that goes on to `onTimerInsertedAtFront`. -/
theorem call_tickled (h : o.call addr m = .ok m') (htickled : m'.m_tickled = true) :
    m.m_tickled = true ∨ o.tickles addr m = true := by
  cases o with
  | addTimer now ms cb recurring => cases h; exact TimerManager.addTimerPtr_tickled htickled
  | addConditionTimer now ms cb weak_cond recurring =>
    cases h; exact TimerManager.addTimerPtr_tickled htickled
  | cancel t =>
    left
    obtain ⟨⟨res, m₁⟩, hcancel, rfl⟩ := map_ok h
    unfold TimerManager.cancel at hcancel
    split at hcancel
    · dsimp only at hcancel
      split at hcancel
      · cases hcancel
      · cases hcancel; exact htickled
    · cases hcancel; exact htickled
  | refresh now t =>
    left
    cases h
    unfold TimerManager.refresh at htickled
    split at htickled
    · exact htickled
    · split at htickled <;> exact htickled
  | reset now ms from_now t =>
    cases h
    simp only [tickles]
    unfold TimerManager.reset at htickled ⊢
    split
    · rw [if_pos ‹_›] at htickled; exact Or.inl htickled
    · rw [if_neg ‹_›] at htickled
      split
      · rw [if_pos ‹_›] at htickled; exact Or.inl htickled
      · rw [if_neg ‹_›] at htickled
        cases hfind : m.find addr t with
        | none => rw [hfind] at htickled; exact Or.inl htickled
        | some it => rw [hfind] at htickled; exact TimerManager.addTimerPtr_tickled htickled
  | getNextTimer now =>
    cases h
    rw [TimerManager.getNextTimer_tickled] at htickled
    cases htickled

/-- A timer that a call inserts at the front tickles, unless one before it has. -/
theorem call_front (h : o.call addr m = .ok m') {t : ℕ} (hinserts : o.inserts addr m = some t)
    (hhead : m'.m_timers.head? = some t) : o.tickles addr m = true ∨ m.m_tickled = true := by
  cases o with
  | addTimer now ms cb recurring =>
    cases h; cases hinserts; exact TimerManager.addTimerPtr_front hhead
  | addConditionTimer now ms cb weak_cond recurring =>
    cases h; cases hinserts; exact TimerManager.addTimerPtr_front hhead
  | reset now ms from_now t' =>
    cases h
    simp only [inserts] at hinserts
    split at hinserts
    · cases hinserts
    · rename_i hgo
      cases hinserts
      rw [not_or, not_or] at hgo
      obtain ⟨hsame, hcb, hfind⟩ := hgo
      simp only [tickles, TimerManager.reset, if_neg hsame, if_neg hcb] at hhead ⊢
      cases hit : m.find addr t with
      | none => simp [hit] at hfind
      | some it => simp only [hit] at hhead ⊢; exact TimerManager.addTimerPtr_front hhead
  | cancel t' => cases hinserts
  | refresh now t' => cases hinserts
  | getNextTimer now => cases hinserts

end TimerOp

end Coroutine
