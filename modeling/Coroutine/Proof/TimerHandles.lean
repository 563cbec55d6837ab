import Coroutine.Proof.TimerExpiry
import Coroutine.Spec.TimerHandles

/-!
# When the handle operations agree

`Kept`: in every reachable state a timer with a callback is in the set, and a timer in the
set has its period after the clock at which it was last armed (`run_kept`). A handle
operation returns true exactly for the timers in the set, with two exceptions: a timer of
an empty function is in the set and is not seen, and a `reset` to the period the timer has
returns true without looking (`handles_agree_iff`).
-/

namespace Coroutine

open Lib

namespace TimerManager

variable {addr : ℕ ↪ ℕ} {m : TimerManager}

/-- Taking a timer out, rewriting it and inserting it again keeps the order. -/
theorem reinsert_sorted (hs : OrdSet.Sorted (m.before addr) m.m_timers) (t : ℕ) (x : Timer) :
    OrdSet.Sorted ((((m.erase t).set t x).insert addr t).before addr)
      (((m.erase t).set t x).insert addr t).m_timers := by
  have hnot : t ∉ (m.erase t).m_timers := fun h => ((mem_erase hs).1 h).1 rfl
  exact OrdSet.insert_sorted (sorted_set (sorted_erase hs t) hnot)

end TimerManager

namespace HandleLog

variable {addr : ℕ ↪ ℕ} {l : HandleLog}

/-- **What every step keeps.** -/
structure Kept (addr : ℕ ↪ ℕ) (l : HandleLog) : Prop where
  sorted : OrdSet.Sorted (l.m.before addr) l.m.m_timers
  armed : ∀ t, (l.m.timer t).m_cb.isSome → t ∈ l.m.m_timers
  made : ∀ t ∈ l.m.m_timers, t < l.m.made
  dated : ∀ t ∈ l.m.m_timers, (l.m.timer t).m_next = l.start t + (l.m.timer t).m_ms

theorem init_kept (now_ms : UInt64) : (init now_ms).Kept addr := by
  refine ⟨by simp [init, TimerManager.init], ?_, ?_, ?_⟩
  · intro t ht; cases ht
  · intro t ht; cases ht
  · intro t ht; cases ht

/-! ## One step -/

/-- A new timer. -/
theorem Kept.addTimer (hl : l.Kept addr) (now ms : UInt64) (cb : Option TimerCb) (recurring : Bool) :
    Kept addr
      { m := (l.m.addTimer addr now ms cb recurring).2.1
        start := fun t => (if t = l.m.made then some now else none).getD (l.start t) } := by
  have hnot : l.m.made ∉ l.m.m_timers := fun h => absurd (hl.made _ h) (Nat.lt_irrefl _)
  have hcase : ∀ t ∈ (l.m.addTimer addr now ms cb recurring).2.1.m_timers,
      t = l.m.made ∨ t ≠ l.m.made ∧ t ∈ l.m.m_timers := by
    intro t ht
    rw [TimerManager.mem_addTimer] at ht
    by_cases heq : t = l.m.made
    · exact Or.inl heq
    · exact Or.inr ⟨heq, ht.resolve_left heq⟩
  refine ⟨?_, ?_, ?_, ?_⟩
  · simp only [TimerManager.addTimer]
    have hs : OrdSet.Sorted
        ((({ l.m.set l.m.made ⟨recurring, ms, now + ms, cb⟩ with made := l.m.made + 1 } :
          TimerManager).insert addr l.m.made).before addr)
        (({ l.m.set l.m.made ⟨recurring, ms, now + ms, cb⟩ with made := l.m.made + 1 } :
          TimerManager).insert addr l.m.made).m_timers :=
      OrdSet.insert_sorted (TimerManager.sorted_set hl.sorted hnot)
    unfold TimerManager.addTimerPtr
    dsimp only
    split
    · exact hs
    · exact hs
  · intro t ht
    rw [TimerManager.addTimer_timer] at ht
    rw [TimerManager.mem_addTimer]
    by_cases heq : t = l.m.made
    · exact Or.inl heq
    · rw [if_neg heq] at ht
      exact Or.inr (hl.armed t ht)
  · intro t ht
    rw [TimerManager.addTimer_made]
    rcases hcase t ht with rfl | ⟨-, hmem⟩
    · exact Nat.lt_succ_self _
    · exact Nat.lt_succ_of_lt (hl.made t hmem)
  · intro t ht
    rw [TimerManager.addTimer_timer]
    rcases hcase t ht with rfl | ⟨hne, hmem⟩
    · simp
    · simp only [if_neg hne, Option.getD_none]
      exact hl.dated t hmem

/-- A timer of the set taken out, rewritten and put back. -/
theorem Kept.reinsert (hl : l.Kept addr) {t : ℕ} (ht : t ∈ l.m.m_timers) {x : Timer} (from_ms : UInt64)
    (hx : x.m_next = from_ms + x.m_ms) {m' : TimerManager} {start : ℕ → UInt64}
    (htimer : m'.timer = (((l.m.erase t).set t x).insert addr t).timer)
    (htimers : m'.m_timers = (((l.m.erase t).set t x).insert addr t).m_timers)
    (hmade : m'.made = l.m.made) (hstart : ∀ i, start i = if i = t then from_ms else l.start i) :
    Kept addr { m := m', start := start } := by
  have hmem : ∀ i, i ∈ m'.m_timers ↔ i ∈ l.m.m_timers := by
    intro i
    rw [htimers]
    exact TimerManager.mem_reinsert hl.sorted ht x i
  have htimer' : ∀ i, m'.timer i = if i = t then x else l.m.timer i := fun i => by rw [htimer]; rfl
  have hbefore : m'.before addr = (((l.m.erase t).set t x).insert addr t).before addr := by
    unfold TimerManager.before TimerManager.key; rw [htimer]
  refine ⟨?_, ?_, ?_, ?_⟩
  · show OrdSet.Sorted (m'.before addr) m'.m_timers
    rw [hbefore, htimers]
    exact TimerManager.reinsert_sorted hl.sorted t x
  · intro i hi
    refine (hmem i).2 ?_
    have hcb : (m'.timer i).m_cb.isSome := hi
    rw [htimer'] at hcb
    by_cases heq : i = t
    · rw [heq]; exact ht
    · rw [if_neg heq] at hcb
      exact hl.armed i hcb
  · intro i hi
    show i < m'.made
    rw [hmade]
    exact hl.made i ((hmem i).1 hi)
  · intro i hi
    show (m'.timer i).m_next = start i + (m'.timer i).m_ms
    rw [htimer', hstart]
    by_cases heq : i = t
    · rw [if_pos heq, if_pos heq]; exact hx
    · rw [if_neg heq, if_neg heq]; exact hl.dated i ((hmem i).1 hi)

theorem Kept.cancel (hl : l.Kept addr) {t : ℕ} {b : Bool} {m' : TimerManager}
    (h : l.m.cancel addr t = .ok (b, m')) : Kept addr { l with m := m' } := by
  rw [TimerManager.cancel_eq hl.sorted (hl.armed t)] at h
  by_cases hcb : (l.m.timer t).m_cb.isSome
  · rw [if_pos hcb] at h
    cases h
    have hs := TimerManager.sorted_set_cb hl.sorted t none
    have hmem := TimerManager.mem_cancelled hl.sorted t
    refine ⟨TimerManager.sorted_erase hs t, ?_, ?_, ?_⟩
    · intro i hi
      refine (hmem i).2 ?_
      have hcb' : ((l.m.set t { l.m.timer t with m_cb := none }).timer i).m_cb.isSome := hi
      by_cases heq : i = t
      · rw [heq, TimerManager.set_timer_self] at hcb'
        cases hcb'
      · rw [TimerManager.set_timer_of_ne _ heq] at hcb'
        exact ⟨heq, hl.armed i hcb'⟩
    · intro i hi
      exact hl.made i ((hmem i).1 hi).2
    · intro i hi
      obtain ⟨hne, hmem'⟩ := (hmem i).1 hi
      show ((l.m.set t _).timer i).m_next = _ + ((l.m.set t _).timer i).m_ms
      rw [TimerManager.set_timer_of_ne _ hne]
      exact hl.dated i hmem'
  · rw [if_neg hcb] at h
    cases h
    exact hl

theorem Kept.refresh (hl : l.Kept addr) (now : UInt64) (t : ℕ) :
    Kept addr
      { m := (l.m.refresh addr now t).2
        start := fun i =>
          (if i = t ∧ (l.m.refresh addr now t).1 = true then some now else none).getD (l.start i) } := by
  have heq := TimerManager.refresh_eq hl.sorted now (hl.armed t)
  by_cases hcb : (l.m.timer t).m_cb.isSome
  · rw [if_pos hcb] at heq
    refine hl.reinsert (hl.armed t hcb) (x := { l.m.timer t with m_next := now + (l.m.timer t).m_ms })
      now rfl (by rw [heq]) (by rw [heq]) (by rw [heq]; rfl) ?_
    intro i
    simp only [heq, and_true]
    split <;> rfl
  · rw [if_neg hcb] at heq
    simp only [heq, Bool.false_eq_true, and_false, if_false, Option.getD_none]
    exact hl

theorem Kept.reset (hl : l.Kept addr) (now ms : UInt64) (from_now : Bool) (t : ℕ) :
    Kept addr
      { m := (l.m.reset addr now ms from_now t).2.1
        start := fun i => (if i = t ∧ from_now = true ∧ (l.m.reset addr now ms from_now t).1 = true
          then some now else none).getD (l.start i) } := by
  have heq := TimerManager.reset_eq hl.sorted now ms from_now (hl.armed t)
  by_cases hsame : ms = (l.m.timer t).m_ms ∧ from_now = false
  · have hfalse := hsame.2
    subst hfalse
    rw [if_pos hsame] at heq
    simp only [heq, Bool.false_eq_true, false_and, and_false, if_false, Option.getD_none]
    exact hl
  rw [if_neg hsame] at heq
  by_cases hcb : (l.m.timer t).m_cb.isSome
  · have ht := hl.armed t hcb
    rw [if_pos hcb] at heq
    -- the deadline less the period is the clock at which the timer was armed
    have hold : (l.m.timer t).m_next - (l.m.timer t).m_ms = l.start t := by
      rw [hl.dated t ht, UInt64.add_sub_cancel]
    rw [hold] at heq
    refine hl.reinsert ht
      (x := { l.m.timer t with m_ms := ms, m_next := (if from_now then now else l.start t) + ms })
      (if from_now then now else l.start t) rfl ?_ ?_ ?_ ?_
    · rw [heq, TimerManager.addTimerPtr_timer]; rfl
    · rw [heq, TimerManager.addTimerPtr_timers]
    · rw [heq, TimerManager.addTimerPtr_made]; rfl
    · intro i
      simp only [heq, and_true]
      by_cases hi : i = t
      · cases from_now <;> simp [hi]
      · simp [hi]
  · rw [if_neg hcb] at heq
    simp only [heq, Bool.false_eq_true, and_false, if_false, Option.getD_none]
    exact hl

theorem Kept.listExpired (hl : l.Kept addr) {now : UInt64} {probe : ℕ}
    {cbs : List (Option TimerCb)} {m' : TimerManager}
    (h : l.m.listExpired addr now probe = .ok (cbs, m')) :
    Kept addr
      { m := m'
        start := fun t =>
          (if t ∈ l.m.expired addr now probe ∧ (l.m.timer t).m_recurring = true then some now
            else none).getD (l.start t) } := by
  obtain ⟨hscan, -⟩ := TimerManager.listExpired_scans hl.sorted h
  refine ⟨hscan.sorted, ?_, ?_, ?_⟩
  · intro t ht
    refine (hscan.mem t).2 ?_
    dsimp only at ht
    rw [hscan.timer] at ht
    -- a timer that still has its callback was not extracted, or recurs
    by_cases hexp : t ∈ l.m.expired addr now probe
    · refine ⟨((TimerManager.mem_expired hl.sorted).1 hexp).1, fun _ => ?_⟩
      rw [if_pos hexp, Timer.rearmed] at ht
      by_contra hone
      rw [if_neg hone] at ht
      cases ht
    · rw [if_neg hexp] at ht
      exact ⟨hl.armed t ht, fun h => absurd h hexp⟩
  · intro t ht
    show t < m'.made
    rw [hscan.made]
    exact hl.made t ((hscan.mem t).1 ht).1
  · intro t ht
    obtain ⟨hmem, hrec⟩ := (hscan.mem t).1 ht
    simp only [hscan.timer]
    by_cases hexp : t ∈ l.m.expired addr now probe
    · simp [hexp, hrec hexp, Timer.rearmed]
    · simp [hexp, hl.dated t hmem]

/-- **Every step keeps it.** -/
theorem step_kept (hl : l.Kept addr) (c : HandleCall) {m' : TimerManager}
    (h : c.call addr l.m = .ok m') :
    Kept addr { m := m', start := fun t => (c.arms addr l.m t).getD (l.start t) } := by
  cases c with
  | addEmpty now ms recurring => cases h; exact hl.addTimer now ms none recurring
  | listExpired now probe =>
    obtain ⟨⟨cbs, m''⟩, hlist, rfl⟩ := map_ok h
    exact hl.listExpired hlist
  | op o =>
    cases o with
    | addTimer now ms cb recurring => cases h; exact hl.addTimer now ms (some (.fn cb)) recurring
    | addConditionTimer now ms cb weak_cond recurring =>
      cases h; exact hl.addTimer now ms (some (.onTimer weak_cond cb)) recurring
    | getNextTimer now =>
      cases h
      rw [TimerManager.getNextTimer_eq]
      exact ⟨hl.sorted, hl.armed, hl.made, hl.dated⟩
    | cancel t =>
      obtain ⟨⟨b, m''⟩, hcancel, rfl⟩ := map_ok h
      exact hl.cancel hcancel
    | refresh now t => cases h; exact hl.refresh now t
    | reset now ms from_now t => cases h; exact hl.reset now ms from_now t

/-- **So it holds in every reachable state.** -/
theorem run_kept (start : UInt64) (cs : List HandleCall)
    (h : run (step addr) (.ok (init start)) cs = .ok l) : l.Kept addr := by
  refine run_ok_inv (f := fun l c => step addr (.ok l) c) (I := Kept addr) ?_ ?_ (init_kept start) h
  · intro r c
    cases r <;> rfl
  · intro c _ l l' hl hstep
    obtain ⟨m', hcall, rfl⟩ := map_ok hstep
    exact step_kept hl c hcall

/-! ## The handle operations -/

/-- The timer after a call that re-arms it. -/
def rearmedBy (l : HandleLog) : HandleOp → Timer
  | .cancel t => { l.m.timer t with m_cb := none }
  | .refresh now t => { l.m.timer t with m_next := now + (l.m.timer t).m_ms }
  | .reset now ms from_now t =>
    { l.m.timer t with m_ms := ms, m_next := (if from_now then now else l.start t) + ms }

/-- The timer is removed or re-armed, and no other changes. -/
structure TakesEffect (l : HandleLog) (o : HandleOp) (m' : TimerManager) : Prop where
  timer : m'.timer o.timer = l.rearmedBy o
  mem : o.timer ∈ m'.m_timers ↔ o ≠ .cancel o.timer
  others : ∀ i ≠ o.timer, m'.timer i = l.m.timer i ∧ (i ∈ m'.m_timers ↔ i ∈ l.m.m_timers)

/-- **The call tells whether the timer was armed**: it returns true exactly for a timer of the
set, and then takes effect; else nothing changes. -/
def Agrees (addr : ℕ ↪ ℕ) (l : HandleLog) (o : HandleOp) : Prop :=
  ∃ b m', o.call addr l.m = .ok (b, m') ∧ (b = true ↔ o.timer ∈ l.m.m_timers) ∧
    (b = false → m' = l.m) ∧ (b = true → l.TakesEffect o m')

/-- **The call looks at the timer and sees whether it is armed**: a timer of the set has a
callback, and a `reset` that asks for the period the timer has, and not from now on, is
made for a timer of the set. -/
def Sees (l : HandleLog) : HandleOp → Prop
  | .cancel t | .refresh _ t => t ∈ l.m.m_timers → (l.m.timer t).m_cb ≠ none
  | .reset _ ms from_now t =>
    if ms = (l.m.timer t).m_ms ∧ from_now = false then t ∈ l.m.m_timers
    else t ∈ l.m.m_timers → (l.m.timer t).m_cb ≠ none

instance (l : HandleLog) : ∀ o, Decidable (l.Sees o)
  | .cancel _ | .refresh _ _ => inferInstanceAs (Decidable (_ → _))
  | .reset _ _ _ _ => inferInstanceAs (Decidable (ite _ _ _))

/-- A call that returns false is right about the timers out of the set. -/
theorem agrees_of_false {o : HandleOp} (h : o.call addr l.m = .ok (false, l.m)) :
    l.Agrees addr o ↔ o.timer ∉ l.m.m_timers := by
  constructor
  · rintro ⟨b, m', hcall, htrue, -⟩ hmem
    rw [h] at hcall
    cases hcall
    cases htrue.2 hmem
  · intro hnot
    refine ⟨false, l.m, h, ?_, fun _ => rfl, ?_⟩
    · exact ⟨fun hb => absurd hb (by decide), fun hmem => absurd hmem hnot⟩
    · intro hb; cases hb

/-- A call that returns true is right about the timers of the set. -/
theorem agrees_of_true {o : HandleOp} {m' : TimerManager} (h : o.call addr l.m = .ok (true, m'))
    (heffect : o.timer ∈ l.m.m_timers → l.TakesEffect o m') :
    l.Agrees addr o ↔ o.timer ∈ l.m.m_timers := by
  constructor
  · rintro ⟨b, m'', hcall, htrue, -⟩
    rw [h] at hcall
    cases hcall
    exact htrue.1 rfl
  · intro hmem
    refine ⟨true, m', h, ⟨fun _ => hmem, fun _ => rfl⟩, ?_, fun _ => heffect hmem⟩
    intro hb
    cases hb

/-- Putting a timer back with another deadline takes effect. -/
theorem takesEffect_of_reinsert (hl : l.Kept addr) {o : HandleOp} (ht : o.timer ∈ l.m.m_timers)
    (hne : o ≠ .cancel o.timer) {m' : TimerManager}
    (htimer : m'.timer = (((l.m.erase o.timer).set o.timer (l.rearmedBy o)).insert addr o.timer).timer)
    (htimers : m'.m_timers =
      (((l.m.erase o.timer).set o.timer (l.rearmedBy o)).insert addr o.timer).m_timers) :
    l.TakesEffect o m' := by
  have hmem : ∀ i, i ∈ m'.m_timers ↔ i ∈ l.m.m_timers := by
    intro i
    rw [htimers]
    exact TimerManager.mem_reinsert hl.sorted ht _ i
  refine ⟨?_, ?_, ?_⟩
  · rw [htimer, TimerManager.reinsert_timer, if_pos rfl]
  · exact ⟨fun _ => hne, fun _ => (hmem _).2 ht⟩
  · intro i hi
    refine ⟨?_, hmem i⟩
    rw [htimer, TimerManager.reinsert_timer, if_neg hi]

theorem cancel_agrees (hl : l.Kept addr) (t : ℕ) : l.Agrees addr (.cancel t) ↔ l.Sees (.cancel t) := by
  have hcall : HandleOp.call addr l.m (.cancel t) = _ := TimerManager.cancel_eq hl.sorted (hl.armed t)
  by_cases hcb : (l.m.timer t).m_cb.isSome
  · have ht := hl.armed t hcb
    rw [if_pos hcb] at hcall
    have hmem := TimerManager.mem_cancelled hl.sorted t
    rw [agrees_of_true hcall]
    · exact ⟨fun _ _ => Option.isSome_iff_ne_none.1 hcb, fun _ => ht⟩
    · intro _
      refine ⟨TimerManager.set_timer_self t _, ?_, ?_⟩
      · constructor
        · intro h; exact absurd rfl ((hmem t).1 h).1
        · intro h; exact absurd rfl h
      · intro i hi
        refine ⟨TimerManager.set_timer_of_ne _ hi, ?_⟩
        rw [hmem]
        exact ⟨fun h => h.2, fun h => ⟨hi, h⟩⟩
  · rw [if_neg hcb] at hcall
    rw [agrees_of_false hcall]
    have hnone : (l.m.timer t).m_cb = none := by simpa using hcb
    exact ⟨fun h ht => absurd ht h, fun h ht => h ht hnone⟩

theorem refresh_agrees (hl : l.Kept addr) (now : UInt64) (t : ℕ) :
    l.Agrees addr (.refresh now t) ↔ l.Sees (.refresh now t) := by
  have heq := TimerManager.refresh_eq hl.sorted now (hl.armed t)
  by_cases hcb : (l.m.timer t).m_cb.isSome
  · have ht := hl.armed t hcb
    rw [if_pos hcb] at heq
    have hcall : HandleOp.call addr l.m (.refresh now t) = _ := congrArg Except.ok heq
    rw [agrees_of_true hcall fun _ =>
      takesEffect_of_reinsert (o := .refresh now t) hl ht (by simp) rfl rfl]
    exact ⟨fun _ _ => Option.isSome_iff_ne_none.1 hcb, fun _ => ht⟩
  · rw [if_neg hcb] at heq
    have hcall : HandleOp.call addr l.m (.refresh now t) = _ := congrArg Except.ok heq
    have hnone : (l.m.timer t).m_cb = none := by simpa using hcb
    rw [agrees_of_false hcall]
    exact ⟨fun h ht => absurd ht h, fun h ht => h ht hnone⟩

theorem reset_agrees (hl : l.Kept addr) (now ms : UInt64) (from_now : Bool) (t : ℕ) :
    l.Agrees addr (.reset now ms from_now t) ↔ l.Sees (.reset now ms from_now t) := by
  have heq := TimerManager.reset_eq hl.sorted now ms from_now (hl.armed t)
  have hcall : HandleOp.call addr l.m (.reset now ms from_now t) =
      .ok ((l.m.reset addr now ms from_now t).1, (l.m.reset addr now ms from_now t).2.1) := rfl
  by_cases hsame : ms = (l.m.timer t).m_ms ∧ from_now = false
  · -- the early return; where the timer is in the set, what it asks for is so already
    rw [if_pos hsame] at heq
    rw [heq] at hcall
    have hsees : l.Sees (.reset now ms from_now t) ↔ t ∈ l.m.m_timers := by
      simp only [Sees, if_pos hsame]
    rw [hsees, agrees_of_true hcall]
    · exact Iff.rfl
    · intro ht
      have ht' : t ∈ l.m.m_timers := ht
      refine ⟨?_, ?_, fun i _ => ⟨rfl, Iff.rfl⟩⟩
      · have hnext := hl.dated t ht'
        obtain ⟨rfl, rfl⟩ := hsame
        simp only [HandleOp.timer, rearmedBy, Bool.false_eq_true, if_false, ← hnext]
      · exact ⟨fun _ => by simp, fun _ => ht⟩
  rw [if_neg hsame] at heq
  have hsees : l.Sees (.reset now ms from_now t) ↔
      (t ∈ l.m.m_timers → (l.m.timer t).m_cb ≠ none) := by
    simp only [Sees, if_neg hsame]
  rw [hsees]
  by_cases hcb : (l.m.timer t).m_cb.isSome
  · have ht := hl.armed t hcb
    rw [if_pos hcb] at heq
    have hold : (l.m.timer t).m_next - (l.m.timer t).m_ms = l.start t := by
      rw [hl.dated t ht, UInt64.add_sub_cancel]
    rw [hold] at heq
    rw [heq] at hcall
    rw [agrees_of_true hcall fun _ =>
      takesEffect_of_reinsert (o := .reset now ms from_now t) hl ht (by simp)
        (TimerManager.addTimerPtr_timer t) (TimerManager.addTimerPtr_timers t)]
    exact ⟨fun _ _ => Option.isSome_iff_ne_none.1 hcb, fun _ => ht⟩
  · rw [if_neg hcb] at heq
    rw [heq] at hcall
    have hnone : (l.m.timer t).m_cb = none := by simpa using hcb
    rw [agrees_of_false hcall]
    exact ⟨fun h ht => absurd ht h, fun h ht => h ht hnone⟩

/-- **When a handle operation tells whether its timer is armed.** -/
theorem handles_agree_iff (addr : ℕ ↪ ℕ) (start : UInt64) (cs : List HandleCall)
    (h : run (step addr) (.ok (init start)) cs = .ok l) (o : HandleOp) :
    l.Agrees addr o ↔ l.Sees o := by
  have hl := run_kept start cs h
  cases o with
  | cancel t => exact cancel_agrees hl t
  | refresh now t => exact refresh_agrees hl now t
  | reset now ms from_now t => exact reset_agrees hl now ms from_now t

theorem handles_agree_iff_cancelled :
    ∃ l, run (step (.refl ℕ)) (.ok (init 5)) [.op (.addTimer 5 7 1 false), .op (.cancel 0)] = .ok l ∧
      l.Agrees (.refl ℕ) (.cancel 0) :=
  ⟨_, rfl, (handles_agree_iff (.refl ℕ) 5 [.op (.addTimer 5 7 1 false), .op (.cancel 0)] rfl _).2
    (by decide)⟩

/-- A timer of 7 ms is cancelled, and a `reset` to 7 ms then returns true. -/
theorem reset_of_cancelled : ∃ l,
    run (step (.refl ℕ)) (.ok (init 5)) [.op (.addTimer 5 7 1 false), .op (.cancel 0)] = .ok l ∧
      ¬ l.Agrees (.refl ℕ) (.reset 6 7 false 0) := by
  refine ⟨_, rfl, ?_⟩
  rintro ⟨b, m', hcall, htrue, -⟩
  have hb : b = true := (congrArg Prod.fst (Except.ok.inj hcall)).symm
  exact absurd (htrue.1 hb) (by decide)

end HandleLog

end Coroutine
