import Coroutine.Proof.TimerStore
import Coroutine.Spec.TimerThreads
import Mathlib.Data.List.TakeWhile

/-!
# `listExpiredCb` between its two sections

`listExpiredCb` tests the set for emptiness in one section and reads `*begin()` in
another. `TakesLast` says that a step takes the last timer out of the set: a `cancel`
of the only one, or an extraction of one-shot timers that are all due.

* `gap_inv`: while no step takes the last timer with another thread in the gap, the
  set is not empty as long as some thread is there.
* `listExpired_gap`: so no thread reads `*begin()` of an empty set; and one that finds
  the set empty and no clock rollover does.
-/

namespace Coroutine

open Lib

namespace TimerManager

variable {addr : ℕ ↪ ℕ} {m : TimerManager}

/-! ## When the set becomes empty -/

theorem expireOne_mem (now_ms : UInt64) (acc : List (Option TimerCb) × TimerManager) (t i : ℕ)
    (h : i ∈ acc.2.m_timers) : i ∈ (expireOne addr now_ms acc t).2.m_timers := by
  unfold expireOne
  dsimp only
  split
  · exact OrdSet.mem_insert_of_mem h
  · exact h

theorem expireOne_recurring (now_ms : UInt64) (acc : List (Option TimerCb) × TimerManager)
    (t i : ℕ) : ((expireOne addr now_ms acc t).2.timer i).m_recurring =
      (acc.2.timer i).m_recurring := by
  unfold expireOne
  dsimp only
  split
  · show ((acc.2.set t _).timer i).m_recurring = _
    by_cases hi : i = t
    · subst hi; rw [set_timer_self]
    · rw [set_timer_of_ne _ hi]
  · by_cases hi : i = t
    · subst hi; rw [set_timer_self]
    · rw [set_timer_of_ne _ hi]

/-- The loop of `listExpiredCb` takes nothing out of the set. -/
theorem rearm_mem (now_ms : UInt64) (i : ℕ) : ∀ (rem : List ℕ)
    (acc : List (Option TimerCb) × TimerManager), i ∈ acc.2.m_timers →
    i ∈ (rem.foldl (expireOne addr now_ms) acc).2.m_timers := by
  intro rem
  induction rem with
  | nil => intro acc h; exact h
  | cons t rem ih => intro acc h; exact ih _ (expireOne_mem now_ms acc t i h)

/-- The loop of `listExpiredCb` puts every recurring timer back. -/
theorem rearm_recurring (now_ms : UInt64) (i : ℕ) : ∀ (rem : List ℕ)
    (acc : List (Option TimerCb) × TimerManager), i ∈ rem → (acc.2.timer i).m_recurring = true →
    i ∈ (rem.foldl (expireOne addr now_ms) acc).2.m_timers := by
  intro rem
  induction rem with
  | nil => intro acc h; simp at h
  | cons t rem ih =>
    intro acc hi hrec
    rcases List.mem_cons.1 hi with rfl | hi
    · have hin : i ∈ (expireOne addr now_ms acc i).2.m_timers := by
        simp only [expireOne, hrec, if_true]
        exact OrdSet.mem_insert_self _ _
      exact rearm_mem now_ms i rem _ hin
    · apply ih _ hi
      rw [expireOne_recurring]; exact hrec

/-- A timer that is not due stays behind the cut. -/
theorem cut_not_due {now_ms : UInt64} {probe t : ℕ} (ht : t ∈ m.m_timers)
    (hlt : now_ms < (m.timer t).m_next) : t ∈ (m.cut addr false now_ms probe).2 := by
  have hcut : (m.cut addr false now_ms probe).1 ++ (m.cut addr false now_ms probe).2 =
    m.m_timers := cut_append _ _ _
  rw [← hcut, List.mem_append] at ht
  refine ht.resolve_left ?_
  intro hmem
  simp only [cut, Bool.false_eq_true, if_false, List.mem_append] at hmem
  rw [UInt64.lt_iff_toNat_lt] at hlt
  rcases hmem with hmem | hmem
  · have hb := List.mem_takeWhile_imp hmem
    unfold key Timer.Comparator at hb
    simp only [UInt64.lt_iff_toNat_lt] at hb
    split at hb
    · omega
    · simp at hb
  · have hd := List.mem_takeWhile_imp hmem
    simp only [beq_iff_eq] at hd
    rw [hd] at hlt; omega

/-- **An extraction leaves the set empty only if it took every timer**, each due (or
the clock rolled over) and none recurring. -/
theorem listExpired_nil {now_ms : UInt64} {probe : ℕ} {cbs : List (Option TimerCb)}
    {m' : TimerManager} (h : m.listExpired addr now_ms probe = .ok (cbs, m'))
    (hnil : m'.m_timers = []) : ∀ t ∈ m.m_timers,
      (m.timer t).m_recurring = false ∧
        (m.clockRollover now_ms = true ∨ (m.timer t).m_next ≤ now_ms) := by
  intro t ht
  -- what the loop leaves, whichever way the cut was made
  have hloop : ∀ b, (({ m with m_previousTime := now_ms } : TimerManager).expire addr b now_ms
      probe).2.m_timers = [] → (m.timer t).m_recurring = false ∧
        (b = true ∨ (m.timer t).m_next ≤ now_ms) := by
    intro b hb
    set m₁ : TimerManager := { m with m_previousTime := now_ms } with hm₁
    have hout : t ∉ (m₁.cut addr b now_ms probe).2 := by
      intro hmem
      have : t ∈ (m₁.expire addr b now_ms probe).2.m_timers := rearm_mem _ _ _ _ hmem
      rw [hb] at this; simp at this
    have hin : t ∈ (m₁.cut addr b now_ms probe).1 := by
      have hcut : (m₁.cut addr b now_ms probe).1 ++ (m₁.cut addr b now_ms probe).2 =
        m₁.m_timers := cut_append _ _ _
      have : t ∈ m₁.m_timers := ht
      rw [← hcut, List.mem_append] at this
      exact this.resolve_right hout
    refine ⟨?_, ?_⟩
    · by_contra hrec
      have : t ∈ (m₁.expire addr b now_ms probe).2.m_timers :=
        rearm_recurring _ _ _ _ hin (by simpa using hrec)
      rw [hb] at this; simp at this
    · cases b with
      | true => exact Or.inl rfl
      | false =>
        right
        by_contra hlt
        exact hout (cut_not_due ht (UInt64.not_le.1 hlt))
  rw [listExpired_eq] at h
  dsimp only at h
  split at h
  · rename_i hr
    rw [← congrArg (fun r => r.2.m_timers) (Except.ok.inj h)] at hnil
    exact ⟨(hloop true hnil).1, Or.inl hr⟩
  · split at h
    · cases h
    · rename_i hl
      split at h
      · rw [← congrArg (fun r => r.2.m_timers) (Except.ok.inj h)] at hnil
        rw [hl] at hnil; simp at hnil
      · rw [← congrArg (fun r => r.2.m_timers) (Except.ok.inj h)] at hnil
        have := hloop false hnil
        exact ⟨this.1, this.2.imp_left (by simp)⟩

/-- **An operation on a handle leaves a set empty only by cancelling its only timer.** -/
theorem call_nil {op : TimerOp} {m' : TimerManager} (h : op.call addr m = .ok m')
    (hne : m.m_timers ≠ []) (hnil : m'.m_timers = []) : ∃ t, op = .cancel t ∧ m.m_timers = [t] := by
  have hptr : ∀ (x : TimerManager) (t : ℕ), (x.addTimerPtr addr t).1.m_timers ≠ [] := by
    intro x t
    unfold addTimerPtr
    dsimp only
    split <;> exact OrdSet.insert_ne_nil _ _
  cases op with
  | addTimer now ms cb recurring =>
    rw [← Except.ok.inj h] at hnil; exact absurd hnil (hptr _ _)
  | addConditionTimer now ms cb weak_cond recurring =>
    rw [← Except.ok.inj h] at hnil; exact absurd hnil (hptr _ _)
  | cancel t =>
    refine ⟨t, rfl, ?_⟩
    simp only [TimerOp.call, cancel] at h
    split at h
    · split at h
      · cases h
      · rename_i it hit
        obtain ⟨rfl, hmem⟩ := OrdSet.find_some hit
        rw [← Except.ok.inj h] at hnil
        have herase : m.m_timers.erase it = [] := hnil
        rcases List.erase_eq_nil_iff.1 herase with h0 | h1
        · exact absurd h0 hne
        · exact h1
    · rw [← Except.ok.inj h] at hnil; exact absurd hnil hne
  | refresh now t =>
    rw [← Except.ok.inj h] at hnil
    unfold refresh at hnil
    split at hnil
    · exact absurd hnil hne
    · split at hnil
      · exact absurd hnil hne
      · exact absurd hnil (OrdSet.insert_ne_nil _ _)
  | reset now ms from_now t =>
    rw [← Except.ok.inj h] at hnil
    unfold reset at hnil
    split at hnil
    · exact absurd hnil hne
    · split at hnil
      · exact absurd hnil hne
      · split at hnil
        · exact absurd hnil hne
        · exact absurd hnil (hptr _ _)
  | getNextTimer now =>
    rw [← Except.ok.inj h] at hnil
    unfold getNextTimer at hnil
    dsimp only at hnil
    split at hnil
    · exact absurd hnil hne
    · split at hnil <;> exact absurd hnil hne

end TimerManager

namespace TimerThreads

variable {addr : ℕ ↪ ℕ}

/-- **The step takes the last timer out of the set**: it cancels the only one, or
extracts all of them, none recurring. -/
def TakesLast (s : TimerThreads) : TimerAct → Prop
  | .call _ (.cancel t) => s.m.m_timers = [t]
  | .expiredWrite th _ => ∃ now_ms, s.checked th = some now_ms ∧ ∀ t ∈ s.m.m_timers,
      (s.m.timer t).m_recurring = false ∧
        (s.m.clockRollover now_ms = true ∨ (s.m.timer t).m_next ≤ now_ms)
  | _ => False

/-- The thread that takes a step. -/
def actor : TimerAct → ℕ
  | .expiredCheck th _ | .expiredWrite th _ | .call th _ => th

/-- No other thread is between the two sections of `listExpiredCb` when the step takes
the last timer. -/
def GapOk (s : TimerThreads) (a : TimerAct) : Prop :=
  s.TakesLast a → ∀ th, th ≠ actor a → s.checked th = none

/-- The set is not empty while a thread is between the two sections, and no thread has
read `*begin()` of an empty one. -/
structure Gap (s : TimerThreads) : Prop where
  nonempty : ∀ th, s.checked th ≠ none → s.m.m_timers ≠ []
  ub : s.ub ≠ some .beginOfEmpty

theorem gap_inv {s : TimerThreads} {a : TimerAct} (hs : s.Gap) (hok : s.GapOk a) :
    (step addr s a).Gap := by
  unfold step
  split
  · exact hs
  cases a with
  | expiredCheck th now_ms =>
    dsimp only
    split
    · exact hs
    · rename_i hne
      exact ⟨fun _ _ => (not_or.1 hne).2, hs.ub⟩
  | expiredWrite th probe =>
    dsimp only
    split
    · exact hs
    · rename_i now_ms hth
      have hne := hs.nonempty th (by rw [hth]; simp)
      obtain ⟨⟨cbs, m'⟩, hx⟩ : ∃ r, s.m.listExpired addr now_ms probe = .ok r :=
        TimerManager.listExpired_ok hne
      rw [hx]
      refine ⟨?_, hs.ub⟩
      intro i hi hnil
      have hlast : s.TakesLast (.expiredWrite th probe) :=
        ⟨now_ms, hth, TimerManager.listExpired_nil hx hnil⟩
      simp only [setChecked] at hi
      by_cases hit : i = th
      · simp [hit] at hi
      · rw [if_neg hit] at hi
        exact hi (hok hlast i hit)
  | call th op =>
    dsimp only
    split
    · exact hs
    · rename_i hth
      cases hc : op.call addr s.m with
      | error e => exact ⟨hs.nonempty, by simp⟩
      | ok m' =>
        refine ⟨?_, hs.ub⟩
        intro i hi hnil
        obtain ⟨t, rfl, hl⟩ := TimerManager.call_nil hc (hs.nonempty i hi) hnil
        have hit : i ≠ th := by
          rintro rfl; exact hi (by simpa using hth)
        exact hi (hok hl i hit)

/-- **`listExpiredCb` reads the front of a non-empty set** in every run whose steps take
the last timer only with no other thread between the two sections; and a thread that
comes to its second section with the set empty, and sees no clock rollover, reads
`*begin()` of an empty set. -/
theorem listExpired_gap (addr : ℕ ↪ ℕ) :
    (∀ (start : UInt64) (as : List TimerAct), Along (step addr) GapOk (init start) as →
      (run (step addr) (init start) as).ub ≠ some .beginOfEmpty) ∧
    ∀ (s : TimerThreads) (th probe : ℕ) (now_ms : UInt64), s.ub = none →
      s.checked th = some now_ms → s.m.m_timers = [] → s.m.clockRollover now_ms = false →
      (step addr s (.expiredWrite th probe)).ub = some .beginOfEmpty := by
  constructor
  · intro start as hok
    have h0 : (init start).Gap := ⟨by simp [init], by simp [init]⟩
    exact (run_inv_of (fun s a => gap_inv) as _ h0 hok).ub
  · intro s th probe now_ms hub hth hnil hr
    simp [step, hub, hth, TimerManager.listExpired_eq, hr, hnil]

/-- A run that meets the condition: the thread extracts the only timer before it is
cancelled. -/
theorem listExpired_gap_run :
    (run (step (Function.Embedding.refl ℕ)) (init 5)
      [.call 0 (.addTimer 5 10 0 false), .expiredCheck 1 20, .expiredWrite 1 7,
        .call 2 (.cancel 0)]).ub ≠ some .beginOfEmpty :=
  (listExpired_gap (Function.Embedding.refl ℕ)).1 5 _
    ⟨fun h => h.elim, fun h => h.elim, fun _ _ hi => if_neg hi, fun _ i _ => by
      by_cases hi : i = 1
      · subst hi; rfl
      · exact (if_neg hi).trans (if_neg hi), trivial⟩

/-- A thread passes the emptiness check, another cancels the only timer, and the first
one reads `*begin()`. -/
theorem cancel_in_gap :
    (run (step (Function.Embedding.refl ℕ)) (init 5)
      [.call 0 (.addTimer 5 10 0 false), .expiredCheck 1 20, .call 2 (.cancel 0),
        .expiredWrite 1 7]).ub = some .beginOfEmpty := by
  decide

end TimerThreads

end Coroutine
