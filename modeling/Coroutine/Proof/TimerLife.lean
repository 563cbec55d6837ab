import Coroutine.Lib.Run
import Coroutine.Proof.TimerExpiry

/-!
# The life of a timer

A timer whose callback is gone never gets one again (`step_keeps`), and only timers with a
callback are in the set. So what was cancelled, or handed out once and for all, is never
handed out later.

* `step_changed`: what a call does to a timer.
* `step_life`: a call keeps the record in this state (`Life`).
* `timer_lifecycle`: the record of every run.
-/

namespace Coroutine

open Lib

namespace TimerCall

variable {addr : ℕ ↪ ℕ} {m m' : TimerManager}

/-- **What a call leaves of a timer**: it may lose its callback, but never gets another one. -/
structure Keeps (m m' : TimerManager) (t : ℕ) : Prop where
  made : t < m'.made
  recurring : (m'.timer t).m_recurring = (m.timer t).m_recurring
  cb : (m'.timer t).m_cb = (m.timer t).m_cb ∨ (m'.timer t).m_cb = none

theorem Keeps.refl {t : ℕ} (ht : t < m.made) : Keeps m m t := ⟨ht, rfl, Or.inl rfl⟩

/-- **What a call does to a timer**: it makes it, arms it from the clock, gives it another period
from when it was armed, or takes at most its callback. -/
inductive Changed (addr : ℕ ↪ ℕ) (m : TimerManager) (c : TimerCall) (t : ℕ) : Timer → Prop
  | made (now ms : UInt64) (cb : TimerCb) (recurring : Bool) (ht : t = m.made)
      (harms : c.arms addr m t = some now) (hgives : c.gives m t = some cb) :
      Changed addr m c t ⟨recurring, ms, now + ms, some cb⟩
  | armed (now ms : UInt64) (ht : t < m.made) (harms : c.arms addr m t = some now) :
      Changed addr m c t { m.timer t with m_ms := ms, m_next := now + ms }
  | moved (ms : UInt64) (ht : t < m.made) (harms : c.arms addr m t = none) :
      Changed addr m c t
        { m.timer t with m_ms := ms, m_next := (m.timer t).m_next - (m.timer t).m_ms + ms }
  | left (cb : Option TimerCb) (ht : t < m.made) (harms : c.arms addr m t = none)
      (hcb : cb = (m.timer t).m_cb ∨ cb = none) : Changed addr m c t { m.timer t with m_cb := cb }

theorem Changed.same {c : TimerCall} {t : ℕ} (ht : t < m.made) (harms : c.arms addr m t = none) :
    Changed addr m c t (m.timer t) := .left _ ht harms (Or.inl rfl)

theorem addTimer_changed {c : TimerCall} {now ms : UInt64} {cb : TimerCb} {recurring : Bool}
    (harms : ∀ t, c.arms addr m t = if t = m.made then some now else none)
    (hgives : ∀ t, c.gives m t = if t = m.made then some cb else none) {t : ℕ}
    (ht : t < (m.addTimer addr now ms (some cb) recurring).2.1.made) :
    Changed addr m c t ((m.addTimer addr now ms (some cb) recurring).2.1.timer t) := by
  rw [TimerManager.addTimer_made] at ht
  rw [TimerManager.addTimer_timer]
  by_cases heq : t = m.made
  · rw [if_pos heq]
    exact .made now ms cb recurring heq ((harms t).trans (if_pos heq)) ((hgives t).trans (if_pos heq))
  · rw [if_neg heq]
    exact .same (by omega) ((harms t).trans (if_neg heq))

theorem step_changed (hm : m.WF addr) {c : TimerCall} (h : c.step addr (.ok m) = .ok m') {t : ℕ}
    (ht : t < m'.made) : Changed addr m c t (m'.timer t) := by
  cases c with
  | listExpiredCb now probe =>
    obtain ⟨⟨cbs, m₁⟩, hlist, rfl⟩ := map_ok h
    have hspec := TimerManager.listExpiredCb_spec hm hlist
    rw [hspec.made] at ht
    rw [hspec.timer]
    by_cases hexp : t ∈ m.expired addr now probe
    · rw [if_pos hexp]
      unfold Timer.rearmed
      split
      · rename_i hrec
        exact .armed now (m.timer t).m_ms ht (if_pos ⟨hexp, hrec⟩)
      · rename_i hrec
        exact .left none ht (if_neg fun h => hrec h.2) (Or.inr rfl)
    · rw [if_neg hexp]
      exact .same ht (if_neg fun h => hexp h.1)
  | op o =>
    cases o with
    | addTimer now ms cb recurring =>
      cases h
      exact addTimer_changed (fun _ => rfl) (fun _ => rfl) ht
    | addConditionTimer now ms cb weak_cond recurring =>
      cases h
      exact addTimer_changed (fun _ => rfl) (fun _ => rfl) ht
    | cancel u =>
      obtain ⟨⟨b, m₁⟩, hcancel, rfl⟩ := map_ok h
      rcases TimerManager.cancel_cases hm u with ⟨-, heq⟩ | ⟨-, heq⟩
      · rw [heq] at hcancel
        cases hcancel
        exact .same ht rfl
      · rw [heq] at hcancel
        cases hcancel
        show Changed addr m _ t (if t = u then _ else _)
        split
        · rename_i htu
          rw [← htu]
          exact .left none ht rfl (Or.inr rfl)
        · exact .same ht rfl
    | refresh now u =>
      cases h
      rcases TimerManager.refresh_cases hm now u with ⟨-, heq⟩ | ⟨-, heq⟩
      · rw [heq] at ht ⊢
        exact .same ht (by simp [arms, heq])
      · rw [heq] at ht ⊢
        rw [TimerManager.reinsert_timer]
        split
        · rename_i htu
          rw [← htu]
          rw [← htu] at heq
          exact .armed now (m.timer t).m_ms ht (by simp [arms, heq])
        · rename_i htu
          exact .same ht (by simp [arms, htu])
    | reset now ms from_now u =>
      cases h
      rcases TimerManager.reset_cases hm now ms from_now u with
        ⟨hsame, heq⟩ | ⟨-, -, heq⟩ | ⟨-, -, heq⟩
      · rw [heq] at ht ⊢
        exact .same ht (by simp [arms, hsame.2])
      · rw [heq] at ht ⊢
        exact .same ht (by simp [arms, heq])
      · rw [heq, TimerManager.addTimerPtr_made] at ht
        rw [heq]
        dsimp only
        rw [TimerManager.addTimerPtr_timer]
        show Changed addr m _ t (if t = u then _ else _)
        split
        · rename_i htu
          rw [← htu]
          rw [← htu] at heq
          cases from_now with
          | true => exact .armed now ms ht (by simp [arms, heq])
          | false => exact .moved ms ht (by simp [arms])
        · rename_i htu
          exact .same ht (by simp [arms, htu])
    | getNextTimer now =>
      cases h
      rw [TimerManager.getNextTimer_eq] at ht ⊢
      exact .same ht rfl

/-- No timer goes away. -/
theorem made_le (hm : m.WF addr) {c : TimerCall} (h : c.step addr (.ok m) = .ok m') :
    m.made ≤ m'.made := by
  cases c with
  | listExpiredCb now probe =>
    obtain ⟨⟨cbs, m₁⟩, hlist, rfl⟩ := map_ok h
    rw [(TimerManager.listExpiredCb_spec hm hlist).made]
  | op o =>
    cases o with
    | addTimer now ms cb recurring =>
      cases h
      rw [TimerManager.addTimer_made]
      exact Nat.le_succ _
    | addConditionTimer now ms cb weak_cond recurring =>
      cases h
      unfold TimerManager.addConditionTimer
      rw [TimerManager.addTimer_made]
      exact Nat.le_succ _
    | cancel u =>
      obtain ⟨⟨b, m₁⟩, hcancel, rfl⟩ := map_ok h
      rcases TimerManager.cancel_cases hm u with ⟨-, heq⟩ | ⟨-, heq⟩ <;>
        (rw [heq] at hcancel; cases hcancel; exact le_rfl)
    | refresh now u =>
      cases h
      rcases TimerManager.refresh_cases hm now u with ⟨-, heq⟩ | ⟨-, heq⟩
      · rw [heq]
      · rw [heq]
        rfl
    | reset now ms from_now u =>
      cases h
      rcases TimerManager.reset_cases hm now ms from_now u with
        ⟨-, heq⟩ | ⟨-, -, heq⟩ | ⟨-, -, heq⟩
      · rw [heq]
      · rw [heq]
      · rw [heq, TimerManager.addTimerPtr_made]
        rfl
    | getNextTimer now =>
      cases h
      rw [TimerManager.getNextTimer_eq]

theorem step_keeps (hm : m.WF addr) {c : TimerCall} (h : c.step addr (.ok m) = .ok m') {t : ℕ}
    (ht : t < m.made) : Keeps m m' t := by
  have ht' : t < m'.made := Nat.lt_of_lt_of_le ht (made_le hm h)
  have hchanged := step_changed hm h ht'
  generalize htimer : m'.timer t = x at hchanged
  cases hchanged with
  | made now ms cb recurring heq => exact absurd heq (Nat.ne_of_lt ht)
  | armed now ms => exact ⟨ht', by rw [htimer], Or.inl (by rw [htimer])⟩
  | moved ms => exact ⟨ht', by rw [htimer], Or.inl (by rw [htimer])⟩
  | left cb _ _ hcb => exact ⟨ht', by rw [htimer], by rw [htimer]; exact hcb⟩

/-- A timer with a callback exists. -/
theorem lt_made (hm : m.WF addr) {t : ℕ} (ht : t ∈ m.m_timers) : t < m.made := by
  by_contra hge
  have hsome := (hm.armed t).1 ht
  rw [hm.fresh t (Nat.not_lt.1 hge)] at hsome
  cases hsome

/-- **What a call adds to the record.** -/
theorem events_cases (hm : m.WF addr) {c : TimerCall} (h : c.step addr (.ok m) = .ok m') :
    c.events addr m = [] ∨
      (∃ t, c.events addr m = [.cancelled t] ∧ t ∈ m.m_timers ∧ (m'.timer t).m_cb = none) ∨
      ∃ now probe cbs, c = .listExpiredCb now probe ∧
        c.events addr m = [.expired (m.expired addr now probe) cbs] ∧
        m.Extracts addr now probe cbs m' := by
  cases c with
  | listExpiredCb now probe =>
    obtain ⟨⟨cbs, m₁⟩, hlist, rfl⟩ := map_ok h
    refine Or.inr (Or.inr ⟨now, probe, cbs, rfl, ?_, TimerManager.listExpiredCb_spec hm hlist⟩)
    simp only [events, hlist]
  | op o =>
    cases o with
    | cancel t =>
      obtain ⟨⟨b, m₁⟩, hcancel, rfl⟩ := map_ok h
      rcases TimerManager.cancel_cases hm t with ⟨-, heq⟩ | ⟨ht, heq⟩
      · left
        simp only [events, heq]
      · right; left
        refine ⟨t, by simp only [events, heq], ht, ?_⟩
        rw [heq] at hcancel
        cases hcancel
        simp [TimerManager.erase]
    | _ => exact Or.inl rfl

/-- A timer made by the call has the callback recorded for it. -/
theorem gives_of_made {c : TimerCall} (h : c.step addr (.ok m) = .ok m') {t : ℕ}
    (ht : m.made ≤ t) (ht' : t < m'.made) (hm : m.WF addr) :
    (m'.timer t).m_cb = c.gives m t ∧ (c.gives m t).isSome := by
  have hchanged := step_changed hm h ht'
  generalize m'.timer t = x at hchanged ⊢
  cases hchanged with
  | made now ms cb recurring heq harms hgives =>
    rw [hgives]
    exact ⟨rfl, rfl⟩
  | armed now ms hlt => exact absurd hlt (Nat.not_lt.2 ht)
  | moved ms hlt => exact absurd hlt (Nat.not_lt.2 ht)
  | left cb hlt => exact absurd hlt (Nat.not_lt.2 ht)

/-- A timer made before keeps the callback recorded for it. -/
theorem gives_of_lt (c : TimerCall) {t : ℕ} (ht : t < m.made) : c.gives m t = none := by
  have hne : t ≠ m.made := by omega
  cases c with
  | listExpiredCb now probe => rfl
  | op o =>
    cases o with
    | addTimer => exact if_neg hne
    | addConditionTimer => exact if_neg hne
    | _ => rfl

end TimerCall

namespace TimerLog

variable {addr : ℕ ↪ ℕ} {l : TimerLog}

/-- **The record agrees with the store.** -/
structure Life (addr : ℕ ↪ ℕ) (l : TimerLog) : Prop where
  wf : l.m.WF addr
  /-- a timer has the callback it was made with, or none -/
  given : ∀ t, t < l.m.made → (l.given t).isSome ∧
    ((l.m.timer t).m_cb = l.given t ∨ (l.m.timer t).m_cb = none)
  /-- only timers that were made are in the record -/
  known : ∀ e ∈ l.log, ∀ t, e = .cancelled t ∨ t ∈ e.handed → t < l.m.made
  /-- what was cancelled, or is one-shot and was handed out, has no callback any more -/
  spent : ∀ e ∈ l.log, ∀ t, e = .cancelled t ∨ t ∈ e.handed ∧ (l.m.timer t).m_recurring = false →
    (l.m.timer t).m_cb = none
  nodup : ∀ e ∈ l.log, e.handed.Nodup
  once : ∀ t, (l.m.timer t).m_recurring = false → (l.log.flatMap (·.handed)).count t ≤ 1
  after : l.log.Pairwise fun e e' => ∀ t, e = .cancelled t → t ∉ e'.handed
  cbs : ∀ ts cbs, .expired ts cbs ∈ l.log → cbs = ts.map l.given ∧ none ∉ cbs

theorem init_life (now_ms : UInt64) : (init now_ms).Life addr := by
  refine ⟨TimerManager.init_wf now_ms, ?_, ?_, ?_, ?_, ?_, List.Pairwise.nil, ?_⟩
  · intro t ht; cases ht
  · intro e he; cases he
  · intro e he; cases he
  · intro e he; cases he
  · intro t _; exact Nat.zero_le 1
  · intro ts cbs h; cases h

/-- A call that adds nothing to the record. -/
theorem life_of_keeps (hl : l.Life addr) {m' : TimerManager} (hwf : m'.WF addr)
    (start : ℕ → ℕ) (given : ℕ → Option TimerCb)
    (hkeeps : ∀ t, t < l.m.made → TimerCall.Keeps l.m m' t ∧ given t = l.given t)
    (hmade : ∀ t, l.m.made ≤ t → t < m'.made → (m'.timer t).m_cb = given t ∧ (given t).isSome) :
    ({ l with m := m', start := start, given := given } : TimerLog).Life addr := by
  have hcb : ∀ t, t < l.m.made → (l.m.timer t).m_cb = none → (m'.timer t).m_cb = none := by
    intro t ht hnone
    rcases (hkeeps t ht).1.cb with heq | heq
    · rw [heq]; exact hnone
    · exact heq
  refine ⟨hwf, ?_, ?_, ?_, hl.nodup, ?_, hl.after, ?_⟩
  · intro t ht
    -- a timer is old, and keeps its callback or loses it, or it is new
    by_cases hold : t < l.m.made
    · obtain ⟨hkeep, hgiven⟩ := hkeeps t hold
      obtain ⟨hsome, hcb'⟩ := hl.given t hold
      refine ⟨by rw [← hgiven] at hsome; exact hsome, ?_⟩
      rcases hkeep.cb with heq | heq
      · show (m'.timer t).m_cb = given t ∨ _
        rw [heq, hgiven]
        exact hcb'
      · exact Or.inr heq
    · obtain ⟨heq, hsome⟩ := hmade t (Nat.not_lt.1 hold) ht
      exact ⟨hsome, Or.inl heq⟩
  · intro e he t ht
    exact (hkeeps t (hl.known e he t ht)).1.made
  · intro e he t ht
    have hold : t < l.m.made := hl.known e he t (ht.imp_right And.left)
    refine hcb t hold (hl.spent e he t ?_)
    rw [← (hkeeps t hold).1.recurring]
    exact ht
  · intro t hrec
    by_cases hin : t ∈ l.log.flatMap (·.handed)
    · obtain ⟨e, he, hte⟩ := List.mem_flatMap.1 hin
      have hold : t < l.m.made := hl.known e he t (Or.inr hte)
      apply hl.once t
      rw [← (hkeeps t hold).1.recurring]
      exact hrec
    · have hzero : (l.log.flatMap (·.handed)).count t = 0 := List.count_eq_zero.2 hin
      show (l.log.flatMap (·.handed)).count t ≤ 1
      omega
  · intro ts cbs hev
    obtain ⟨heq, hnone⟩ := hl.cbs ts cbs hev
    refine ⟨?_, hnone⟩
    rw [heq]
    apply List.map_congr_left
    intro t ht
    exact (hkeeps t (hl.known _ hev t (Or.inr ht))).2.symm

/-- An entry of the record about timers that had a callback just before. -/
theorem life_append (hl : l.Life addr) {e : TimerEvent}
    (hknown : ∀ t, e = .cancelled t ∨ t ∈ e.handed → t < l.m.made)
    (hspent : ∀ t, e = .cancelled t ∨ t ∈ e.handed ∧ (l.m.timer t).m_recurring = false →
      (l.m.timer t).m_cb = none)
    (hnodup : e.handed.Nodup)
    (hfresh : ∀ t ∈ e.handed, ∀ e' ∈ l.log, e' ≠ .cancelled t ∧
      ((l.m.timer t).m_recurring = false → t ∉ e'.handed))
    (hcbs : ∀ ts cbs, e = .expired ts cbs → cbs = ts.map l.given ∧ none ∉ cbs) :
    ({ l with log := l.log ++ [e] } : TimerLog).Life addr := by
  refine ⟨hl.wf, hl.given, ?_, ?_, ?_, ?_, ?_, ?_⟩
  · intro e' he'
    rcases List.mem_append.1 he' with h | h
    · exact hl.known e' h
    · rw [List.mem_singleton.1 h]; exact hknown
  · intro e' he'
    rcases List.mem_append.1 he' with h | h
    · exact hl.spent e' h
    · rw [List.mem_singleton.1 h]; exact hspent
  · intro e' he'
    rcases List.mem_append.1 he' with h | h
    · exact hl.nodup e' h
    · rw [List.mem_singleton.1 h]; exact hnodup
  · intro t hrec
    have hold := hl.once t hrec
    simp only [List.flatMap_append, List.flatMap_cons, List.flatMap_nil, List.append_nil,
      List.count_append]
    -- handed out now, so not before; or not now
    by_cases hin : t ∈ e.handed
    · have hnew : e.handed.count t ≤ 1 := List.nodup_iff_count.1 hnodup t
      have hzero : (l.log.flatMap (·.handed)).count t = 0 := by
        rw [List.count_eq_zero]
        intro hmem
        obtain ⟨e', he', hte'⟩ := List.mem_flatMap.1 hmem
        exact (hfresh t hin e' he').2 hrec hte'
      omega
    · have hzero : e.handed.count t = 0 := List.count_eq_zero.2 hin
      omega
  · rw [List.pairwise_append]
    refine ⟨hl.after, List.pairwise_singleton _ _, ?_⟩
    intro e₁ he₁ e₂ he₂ t heq hin
    rw [List.mem_singleton.1 he₂] at hin
    exact (hfresh t hin e₁ he₁).1 heq
  · intro ts cbs hev
    rcases List.mem_append.1 hev with h | h
    · exact hl.cbs ts cbs h
    · exact hcbs ts cbs (List.mem_singleton.1 h).symm

/-- A timer of the set has its callback, so it is not spent. -/
theorem Life.cb_ne (hl : l.Life addr) {t : ℕ} (ht : t ∈ l.m.m_timers) : (l.m.timer t).m_cb ≠ none :=
  Option.isSome_iff_ne_none.1 ((hl.wf.armed t).1 ht)

/-- A cancellation is recorded once the timer has no callback. -/
theorem life_cancelled (hl : l.Life addr) {t : ℕ} (ht : t < l.m.made)
    (hnone : (l.m.timer t).m_cb = none) :
    ({ l with log := l.log ++ [.cancelled t] } : TimerLog).Life addr := by
  refine life_append hl ?_ ?_ List.nodup_nil ?_ ?_
  · rintro u (heq | hu)
    · cases heq
      exact ht
    · cases hu
  · rintro u (heq | ⟨hu, -⟩)
    · cases heq
      exact hnone
    · cases hu
  · intro u hu; cases hu
  · intro ts cbs heq; cases heq

/-- The timers handed out are recorded, which were in the set before the call. -/
theorem life_expired (hl : l.Life addr) {l' : TimerLog} (hl' : l'.Life addr) (hlog : l'.log = l.log)
    (hkeeps : ∀ t, t < l.m.made → TimerCall.Keeps l.m l'.m t ∧ l'.given t = l.given t)
    {now : UInt64} {probe : ℕ} {cbs : List (Option TimerCb)}
    (hspec : l.m.Extracts addr now probe cbs l'.m) :
    ({ l' with log := l'.log ++ [.expired (l.m.expired addr now probe) cbs] } : TimerLog).Life addr := by
  have hmem : ∀ t ∈ l.m.expired addr now probe, t ∈ l.m.m_timers :=
    fun t ht => ((TimerManager.mem_expired hl.wf.sorted).1 ht).1
  have hlt : ∀ t ∈ l.m.expired addr now probe, t < l.m.made :=
    fun t ht => TimerCall.lt_made hl.wf (hmem t ht)
  have hrec_iff : ∀ t ∈ l.m.expired addr now probe,
      (l'.m.timer t).m_recurring = (l.m.timer t).m_recurring :=
    fun t ht => (hkeeps t (hlt t ht)).1.recurring
  refine life_append hl' ?_ ?_ (TimerManager.expired_nodup hl.wf.sorted now probe) ?_ ?_
  · rintro t (heq | ht)
    · cases heq
    · exact (hkeeps t (hlt t ht)).1.made
  · rintro t (heq | ⟨ht, hrec⟩)
    · cases heq
    · -- a one-shot timer loses its callback as it is handed out
      have hin : t ∈ l.m.expired addr now probe := ht
      rw [hrec_iff t hin] at hrec
      rw [hspec.timer, if_pos hin]
      simp [Timer.rearmed, hrec]
  · intro t ht e' he'
    rw [hlog] at he'
    refine ⟨?_, ?_⟩
    · rintro rfl
      exact hl.cb_ne (hmem t ht) (hl.spent _ he' t (Or.inl rfl))
    · intro hrec hte'
      rw [hrec_iff t ht] at hrec
      exact hl.cb_ne (hmem t ht) (hl.spent _ he' t (Or.inr ⟨hte', hrec⟩))
  · intro ts cbs' heq
    cases heq
    have hcb : ∀ t ∈ l.m.expired addr now probe, (l.m.timer t).m_cb = l'.given t := by
      intro t ht
      rw [(hkeeps t (hlt t ht)).2]
      exact (hl.given t (hlt t ht)).2.resolve_right (hl.cb_ne (hmem t ht))
    rw [hspec.cbs]
    refine ⟨List.map_congr_left hcb, ?_⟩
    intro hnone
    obtain ⟨t, ht, heq⟩ := List.mem_map.1 hnone
    exact hl.cb_ne (hmem t ht) heq

/-- **Every call is defined and keeps the record in this state.** -/
theorem step_life (hl : l.Life addr) (c : TimerCall) :
    ∃ l', step addr (.ok l) c = .ok l' ∧ l'.Life addr := by
  obtain ⟨m', hstep, hwf⟩ := TimerCall.step_ok hl.wf c
  have hok : step addr (.ok l) c = .ok
      { m := m'
        start := fun t => ((c.arms addr l.m t).map (·.toNat)).getD (l.start t)
        given := fun t => (c.gives l.m t).or (l.given t)
        log := l.log ++ c.events addr l.m } := by
    simp only [step, Except.bind, hstep, Except.map]
  refine ⟨_, hok, ?_⟩
  have hkeeps : ∀ t, t < l.m.made → TimerCall.Keeps l.m m' t ∧
      (c.gives l.m t).or (l.given t) = l.given t := by
    intro t ht
    refine ⟨TimerCall.step_keeps hl.wf hstep ht, ?_⟩
    rw [TimerCall.gives_of_lt c ht]
    rfl
  have hmade : ∀ t, l.m.made ≤ t → t < m'.made →
      (m'.timer t).m_cb = (c.gives l.m t).or (l.given t) ∧
        ((c.gives l.m t).or (l.given t)).isSome := by
    intro t hge hlt
    obtain ⟨heq, hsome⟩ := TimerCall.gives_of_made hstep hge hlt hl.wf
    obtain ⟨cb, hcb⟩ := Option.isSome_iff_exists.1 hsome
    rw [heq, hcb]
    exact ⟨rfl, rfl⟩
  have hnew := life_of_keeps hl hwf
    (fun t => ((c.arms addr l.m t).map (·.toNat)).getD (l.start t)) _ hkeeps hmade
  rcases TimerCall.events_cases hl.wf hstep with hev | ⟨t, hev, ht, hnone⟩ |
    ⟨now, probe, cbs, -, hev, hspec⟩
  · rw [hev, List.append_nil]
    exact hnew
  · rw [hev]
    exact life_cancelled hnew (hkeeps t (TimerCall.lt_made hl.wf ht)).1.made hnone
  · rw [hev]
    exact life_expired hl hnew rfl hkeeps hspec

/-- **The life of every timer in every run.** A one-shot timer's callback is handed out once at
most, a recurring one's once at most in a call, and none after a cancellation that succeeded;
what is handed out are the callbacks the timers were made with. -/
theorem timer_lifecycle (addr : ℕ ↪ ℕ) (start : UInt64) (cs : List TimerCall) :
    ∃ l, run (step addr) (.ok (init start)) cs = .ok l ∧
      (∀ t, (l.m.timer t).m_recurring = false → (l.log.flatMap (·.handed)).count t ≤ 1) ∧
      (∀ e ∈ l.log, e.handed.Nodup) ∧
      (l.log.Pairwise fun e e' => ∀ t, e = .cancelled t → t ∉ e'.handed) ∧
      ∀ ts cbs, .expired ts cbs ∈ l.log → cbs = ts.map l.given ∧ none ∉ cbs := by
  have hrun : ∃ l, run (step addr) (.ok (init start)) cs = .ok l ∧ l.Life addr := by
    refine run_inv (I := fun s : Except Fault TimerLog => ∃ l, s = .ok l ∧ l.Life addr) ?_ cs _
      ⟨_, rfl, init_life start⟩
    rintro s c ⟨l, rfl, hl⟩
    exact step_life hl c
  obtain ⟨l, hl, hlife⟩ := hrun
  exact ⟨l, hl, hlife.once, hlife.nodup, hlife.after, hlife.cbs⟩

end TimerLog

end Coroutine
