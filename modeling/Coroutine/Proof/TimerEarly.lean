import Coroutine.Proof.TimerLife

/-!
# When a timer fires early

`m_next` is the deadline modulo `2 ^ 64` (`Dated`, `step_dated`), and below an hour the
threshold of `detectClockRollover` wraps, so that any step back of the clock counts as a
rollover (`clockRollover_iff`). A timer fires early exactly in these two ways
(`onTime_iff`), and so does a run (`never_early_iff`).
-/

namespace Coroutine

open Lib

namespace TimerManager

variable {addr : ℕ ↪ ℕ} {m m' : TimerManager}

/-- **What `detectClockRollover` tests.** -/
theorem clockRollover_iff (now_ms : UInt64) : m.clockRollover now_ms = true ↔
    now_ms.toNat < m.m_previousTime.toNat ∧
      (m.m_previousTime.toNat < 3600000 ∨ now_ms.toNat + 3600000 < m.m_previousTime.toNat) := by
  have hnow := now_ms.toNat_lt
  have hprev := m.m_previousTime.toNat_lt
  have hsub : (m.m_previousTime - 60 * 60 * 1000).toNat =
      (2 ^ 64 - 3600000 + m.m_previousTime.toNat) % 2 ^ 64 := UInt64.toNat_sub _ _
  simp only [clockRollover, Bool.and_eq_true, decide_eq_true_eq, UInt64.lt_iff_toNat_lt, hsub]
  omega

end TimerManager

namespace TimerCall

variable {addr : ℕ ↪ ℕ} {m m' : TimerManager}

/-- **A call arms a timer with its period from the clock, or leaves the arming time as it was.** -/
theorem step_next (hm : m.WF addr) {c : TimerCall} (h : c.step addr (.ok m) = .ok m') {t : ℕ}
    (ht : t < m'.made) :
    (∃ now, c.arms addr m t = some now ∧ (m'.timer t).m_next = now + (m'.timer t).m_ms) ∨
      c.arms addr m t = none ∧ t < m.made ∧
        (m'.timer t).m_next - (m'.timer t).m_ms = (m.timer t).m_next - (m.timer t).m_ms := by
  have hchanged := step_changed hm h ht
  generalize m'.timer t = x at hchanged ⊢
  cases hchanged with
  | made now ms cb recurring heq harms hgives => exact Or.inl ⟨now, harms, rfl⟩
  | armed now ms hlt harms => exact Or.inl ⟨now, harms, rfl⟩
  | moved ms hlt harms => exact Or.inr ⟨harms, hlt, UInt64.add_sub_cancel _ _⟩
  | left cb hlt harms hcb => exact Or.inr ⟨harms, hlt, rfl⟩

end TimerCall

namespace TimerLog

variable {addr : ℕ ↪ ℕ} {l : TimerLog}

/-- **The stored deadline is the exact one, modulo `2 ^ 64`.** -/
structure Dated (addr : ℕ ↪ ℕ) (l : TimerLog) : Prop where
  wf : l.m.WF addr
  start : ∀ t, t < l.m.made → l.start t = ((l.m.timer t).m_next - (l.m.timer t).m_ms).toNat

theorem init_dated (now_ms : UInt64) : (init now_ms).Dated addr := by
  refine ⟨TimerManager.init_wf now_ms, ?_⟩
  intro t ht
  cases ht

theorem step_dated (hl : l.Dated addr) (c : TimerCall) :
    ∃ l', step addr (.ok l) c = .ok l' ∧ l'.Dated addr := by
  obtain ⟨m', hstep, hwf⟩ := TimerCall.step_ok hl.wf c
  have hok : step addr (.ok l) c = .ok
      { m := m'
        start := fun t => ((c.arms addr l.m t).map (·.toNat)).getD (l.start t)
        given := fun t => (c.gives l.m t).or (l.given t)
        log := l.log ++ c.events addr l.m } := by
    simp only [step, Except.bind, hstep, Except.map]
  refine ⟨_, hok, hwf, ?_⟩
  intro t ht
  rcases TimerCall.step_next hl.wf hstep ht with ⟨now, harms, hnext⟩ | ⟨harms, hlt, hnext⟩
  · simp only [harms, hnext, Option.map_some, Option.getD_some, UInt64.add_sub_cancel]
  · simp only [harms, hnext, Option.map_none, Option.getD_none]
    exact hl.start t hlt

/-- The stored deadline of a timer in the set. -/
theorem Dated.next (hl : l.Dated addr) {t : ℕ} (ht : t ∈ l.m.m_timers) :
    (l.m.timer t).m_next.toNat = l.deadline t ∧ l.deadline t < 2 ^ 64 ∨
      (l.m.timer t).m_next.toNat + 2 ^ 64 = l.deadline t := by
  have hstart := hl.start t (TimerCall.lt_made hl.wf ht)
  rw [UInt64.toNat_sub] at hstart
  have hnext := (l.m.timer t).m_next.toNat_lt
  have hms := (l.m.timer t).m_ms.toNat_lt
  unfold deadline
  omega

/-- The clock went back by more than an hour since the reading recorded last. -/
def WentBack (l : TimerLog) (now_ms : UInt64) : Prop :=
  now_ms.toNat + 3600000 < l.m.m_previousTime.toNat

/-- The callbacks that are handed out at `now_ms` are those of timers that have reached their
deadlines, unless the clock went back by more than an hour. -/
def HandsOut (l : TimerLog) (now_ms : UInt64) : TimerEvent → Prop
  | .cancelled _ => True
  | .expired timers cbs => cbs = timers.map (fun t => (l.m.timer t).m_cb) ∧
      ∀ t ∈ timers, l.deadline t ≤ now_ms.toNat ∨ l.WentBack now_ms

/-- **The call hands out no callback before its timer's deadline**, unless the clock went
back by more than an hour. -/
def OnTime (addr : ℕ ↪ ℕ) : Except Fault TimerLog → TimerCall → Prop
  | .ok l, .listExpiredCb now_ms probe =>
    ∀ e ∈ (TimerCall.listExpiredCb now_ms probe).events addr l.m, l.HandsOut now_ms e
  | _, _ => True

/-- **The arithmetic of the call does not wrap where it matters**: if the clock went back
within the first hour, every timer in the set is due; else no timer whose deadline takes
more than 64 bits has a stored deadline that is past. -/
def Fits : Except Fault TimerLog → TimerCall → Prop
  | .ok l, .listExpiredCb now_ms _ =>
    l.WentBack now_ms ∨
      if now_ms < l.m.m_previousTime ∧ l.m.m_previousTime < 3600000 then
        ∀ t ∈ l.m.m_timers, l.deadline t ≤ now_ms.toNat
      else ∀ t ∈ l.m.m_timers, 2 ^ 64 ≤ l.deadline t → now_ms < (l.m.timer t).m_next
  | _, _ => True

instance (l : TimerLog) (now_ms : UInt64) : Decidable (l.WentBack now_ms) :=
  inferInstanceAs (Decidable (_ < _))

instance (l : TimerLog) (now_ms : UInt64) : DecidablePred (l.HandsOut now_ms)
  | .cancelled _ => inferInstanceAs (Decidable True)
  | .expired _ _ => inferInstanceAs (Decidable (_ ∧ ∀ t ∈ _, _ ∨ _))

instance (addr : ℕ ↪ ℕ) : ∀ (s : Except Fault TimerLog) (c : TimerCall), Decidable (OnTime addr s c)
  | .ok _, .listExpiredCb _ _ => inferInstanceAs (Decidable (∀ e ∈ _, HandsOut _ _ e))
  | .ok _, .op _ | .error _, _ => isTrue trivial

/-- **When a call hands out no callback early.** -/
theorem onTime_iff (hl : l.Dated addr) (c : TimerCall) : OnTime addr (.ok l) c ↔ Fits (.ok l) c := by
  cases c with
  | op o => exact Iff.rfl
  | listExpiredCb now_ms probe =>
    obtain ⟨cbs, m', hlist, -⟩ := TimerManager.listExpiredCb_ok hl.wf now_ms probe
    have hevents : (TimerCall.listExpiredCb now_ms probe).events addr l.m =
        [.expired (l.m.expired addr now_ms probe) cbs] := by
      simp only [TimerCall.events, hlist]
    have hcbs := (TimerManager.listExpiredCb_spec hl.wf hlist).cbs
    have hon : OnTime addr (.ok l) (.listExpiredCb now_ms probe) ↔ ∀ t ∈ l.m.m_timers,
        l.m.clockRollover now_ms = true ∨ (l.m.timer t).m_next ≤ now_ms →
          l.deadline t ≤ now_ms.toNat ∨ l.WentBack now_ms := by
      simp only [OnTime, hevents, List.mem_singleton, forall_eq, HandsOut, ← hcbs, true_and,
        TimerManager.mem_expired hl.wf.sorted, and_imp]
    rw [hon]
    by_cases hback : l.WentBack now_ms
    · simp [Fits, hback]
    simp only [Fits, hback, false_or]
    have hroll := TimerManager.clockRollover_iff (m := l.m) now_ms
    have hback' : ¬ now_ms.toNat + 3600000 < l.m.m_previousTime.toNat := hback
    have hnow := now_ms.toNat_lt
    by_cases hearly : now_ms < l.m.m_previousTime ∧ l.m.m_previousTime < 3600000
    · have hroll' : l.m.clockRollover now_ms = true := by
        rw [UInt64.lt_iff_toNat_lt, UInt64.lt_iff_toNat_lt] at hearly
        exact hroll.2 ⟨hearly.1, Or.inl hearly.2⟩
      rw [if_pos hearly]
      simp [hroll']
    · have hroll' : ¬ l.m.clockRollover now_ms = true := by
        rw [hroll]
        rw [UInt64.lt_iff_toNat_lt, UInt64.lt_iff_toNat_lt] at hearly
        rintro ⟨h1, h2 | h2⟩
        · exact hearly ⟨h1, h2⟩
        · exact hback' h2
      rw [if_neg hearly]
      apply forall₂_congr
      intro t ht
      rw [UInt64.le_iff_toNat_le, UInt64.lt_iff_toNat_lt]
      -- the stored deadline is the exact one, or is `2 ^ 64` less and so before `now_ms` too soon
      have hnext := hl.next ht
      constructor
      · intro h hge
        by_contra hlt
        have hdue := (h (Or.inr (by omega))).resolve_right id
        omega
      · rintro h (htrue | hle)
        · exact absurd htrue hroll'
        · left
          by_contra hlt
          have hpast : 2 ^ 64 ≤ l.deadline t → now_ms.toNat < (l.m.timer t).m_next.toNat := h
          omega

/-- **A run hands out no callback early exactly when its arithmetic does not wrap where it
matters.** -/
theorem never_early_iff (addr : ℕ ↪ ℕ) (start : UInt64) (cs : List TimerCall) :
    Along (step addr) (OnTime addr) (.ok (init start)) cs ↔
      Along (step addr) Fits (.ok (init start)) cs := by
  refine along_congr (I := fun s : Except Fault TimerLog => ∃ l, s = .ok l ∧ l.Dated addr) ?_ ?_ cs
    ⟨_, rfl, init_dated start⟩
  · rintro s c ⟨l, rfl, hl⟩
    exact step_dated hl c
  · rintro s c ⟨l, rfl, hl⟩
    exact onTime_iff hl c

/-- A timer of `2 ^ 64 - 1` ms is added at 5 ms and is due at once. -/
theorem huge_period_early :
    ¬ Along (step (.refl ℕ)) (OnTime (.refl ℕ)) (.ok (init 5))
      [.op (.addTimer 5 0xffffffffffffffff 7 false), .listExpiredCb 5 0] := by
  decide

end TimerLog

end Coroutine
