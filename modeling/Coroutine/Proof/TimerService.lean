import Coroutine.Lib.Refine
import Coroutine.Proof.TimerFront
import Coroutine.Proof.TimerScan
import Coroutine.Spec.TimerService

/-!
# A `TimerManager` refines the timer service

* `front_of_insert`: the test for the front of the set is that of the service.
* `answer_refines`: in a well-formed store every call returns, answers as the service allows, and
  leaves a well-formed store whose timers are those of the service.
* `manager_refines`: so every run of calls on a new `TimerManager`, with whatever addresses its
  timers get, is a run of the service.
-/

namespace Coroutine

open Lib

namespace TimerManager

variable {addr : ℕ ↪ ℕ} {m : TimerManager}

/-! ## The service of a store -/

theorem service_pending (m : TimerManager) (t : ℕ) :
    m.service.pending t = (m.timer t).m_cb.map fun cb => ((m.timer t).m_next, cb) := rfl

theorem service_isSome (m : TimerManager) (t : ℕ) :
    (m.service.pending t).isSome = (m.timer t).m_cb.isSome := by
  rw [service_pending, Option.isSome_map]

theorem service_none (hm : m.WF addr) {t : ℕ} : m.service.pending t = none ↔ t ∉ m.m_timers := by
  rw [service_pending, Option.map_eq_none_iff, hm.armed, Option.not_isSome_iff_eq_none]

theorem service_due (hm : m.WF addr) {t : ℕ} {d : UInt64} :
    m.service.Due t d ↔ t ∈ m.m_timers ∧ (m.timer t).m_next = d := by
  unfold TimerService.Due
  rw [hm.armed, Option.isSome_iff_exists]
  constructor
  · rintro ⟨cb, h⟩
    obtain ⟨cb, hcb, heq⟩ := Option.map_eq_some_iff.1 h
    cases heq
    exact ⟨⟨cb, hcb⟩, rfl⟩
  · rintro ⟨⟨cb, hcb⟩, rfl⟩
    exact ⟨cb, by rw [service_pending, hcb]; rfl⟩

/-- **A store that differs in one timer** has the service that differs in it. -/
theorem service_set {m' : TimerManager} {t : ℕ} {x : Timer}
    (htimer : ∀ i, m'.timer i = if i = t then x else m.timer i) (hmade : m'.made = m.made)
    (hseen : m'.m_previousTime = m.m_previousTime) (hrec : x.m_recurring = (m.timer t).m_recurring) :
    m'.service = { m.service.pend t (x.m_cb.map fun cb => (x.m_next, cb)) with
      period := Function.update m.service.period t x.m_ms
      tickled := m'.m_tickled } := by
  refine TimerService.ext hmade (funext fun i => ?_) (funext fun i => ?_) (funext fun i => ?_) rfl hseen
  · show (m'.timer i).m_ms = Function.update (fun t => (m.timer t).m_ms) t x.m_ms i
    rw [htimer, Function.update_apply]
    split <;> rfl
  · show (m'.timer i).m_recurring = (m.timer i).m_recurring
    rw [htimer]
    split
    · rename_i h; rw [h, hrec]
    · rfl
  · show (m'.timer i).m_cb.map (fun cb => ((m'.timer i).m_next, cb)) =
      Function.update m.service.pending t (x.m_cb.map fun cb => (x.m_next, cb)) i
    rw [htimer, Function.update_apply]
    split <;> rfl

/-- **The test for the front of the set** is that of the service, for a service that has the
timers the new one is inserted among. -/
theorem front_of_insert {s : TimerService} {val : ℕ} (hs : OrdSet.Sorted (m.before addr) m.m_timers)
    (hdue : ∀ t d, s.Due t d ↔ t ∈ m.m_timers ∧ (m.timer t).m_next = d)
    (htickled : s.tickled = m.m_tickled) (hnot : val ∉ m.m_timers) :
    s.Front (m.timer val).m_next (m.addTimerPtr addr val).2 := by
  have hsorted : OrdSet.Sorted ((m.insert addr val).before addr) (m.insert addr val).m_timers :=
    OrdSet.insert_sorted hs
  have hflag : (m.addTimerPtr addr val).2 =
      decide ((m.insert addr val).m_timers.head? = some val ∧ m.m_tickled = false) := rfl
  have hmem : ∀ t, t ∈ (m.insert addr val).m_timers ↔ t = val ∨ t ∈ m.m_timers := fun t =>
    OrdSet.mem_insert
  rw [hflag]
  constructor
  · intro hfront
    obtain ⟨hhead, hquiet⟩ := of_decide_eq_true hfront
    refine ⟨htickled.trans hquiet, ?_⟩
    intro t d hd
    obtain ⟨ht, rfl⟩ := (hdue t d).1 hd
    exact front_le hsorted hhead ((hmem t).2 (Or.inr ht))
  · intro hfront
    have hnone := of_decide_eq_false hfront
    rw [htickled]
    by_cases hquiet : m.m_tickled = true
    · exact Or.inl hquiet
    -- another timer comes first
    obtain ⟨u, hu⟩ : ∃ u, (m.insert addr val).m_timers.head? = some u := by
      cases hl : (m.insert addr val).m_timers with
      | nil => exact absurd hl (OrdSet.insert_ne_nil val _)
      | cons u rest => exact ⟨u, rfl⟩
    have hne : u ≠ val := by
      rintro rfl
      exact hnone ⟨hu, by simpa using hquiet⟩
    have hmem_u := ((hmem u).1 (List.mem_of_mem_head? hu)).resolve_left hne
    refine Or.inr ⟨u, _, (hdue u _).2 ⟨hmem_u, rfl⟩, ?_⟩
    exact front_le hsorted hu ((hmem val).2 (Or.inl rfl))

theorem addTimerPtr_tickles (t : ℕ) :
    (m.addTimerPtr addr t).1.m_tickled = (m.m_tickled || (m.addTimerPtr addr t).2) := by
  have htick : (m.insert addr t).m_tickled = m.m_tickled := rfl
  unfold addTimerPtr
  dsimp only
  split
  · rename_i h; rw [decide_eq_true h, Bool.or_true]
  · rename_i h; rw [decide_eq_false h, Bool.or_false, htick]

theorem addTimerPtr_seen (t : ℕ) : (m.addTimerPtr addr t).1.m_previousTime = m.m_previousTime := by
  unfold addTimerPtr
  dsimp only
  split <;> rfl

/-! ## The calls -/

/-- Adding a timer, plain or with a condition. -/
theorem addTimer_refines (hm : m.WF addr) (now ms : UInt64) (cb : TimerCb) (recurring : Bool) :
    let r := m.addTimer addr now ms (some cb) recurring
    r.1 = m.service.made ∧ r.2.1.WF addr ∧ m.service.Front (now + ms) r.2.2 ∧
      r.2.1.service = m.service.make now ms cb recurring r.2.2 := by
  intro r
  set m₀ : TimerManager := { m.set m.made ⟨recurring, ms, now + ms, some cb⟩ with made := m.made + 1 }
    with hm₀
  have hnot : m.made ∉ m.m_timers := by rw [hm.armed, hm.fresh _ (Nat.le_refl _)]; simp
  have hr : r = (m.made, m₀.addTimerPtr addr m.made) := rfl
  have hsorted : OrdSet.Sorted (m₀.before addr) m₀.m_timers := sorted_set hm.sorted hnot
  refine ⟨rfl, addTimer_wf hm now ms cb recurring, ?_, ?_⟩
  · have hnext : (m₀.timer m.made).m_next = now + ms := by simp [hm₀, set]
    rw [← hnext]
    refine front_of_insert hsorted ?_ rfl hnot
    intro t d
    rw [service_due hm]
    have hsame : t ∈ m.m_timers → m₀.timer t = m.timer t := by
      intro ht
      have hne : t ≠ m.made := fun h => hnot (h ▸ ht)
      simp [hm₀, set, hne]
    constructor
    · rintro ⟨ht, hd⟩; exact ⟨ht, by rw [hsame ht]; exact hd⟩
    · rintro ⟨ht, hd⟩; exact ⟨ht, by rw [← hsame ht]; exact hd⟩
  · have htimer : ∀ i, r.2.1.timer i = if i = m.made then ⟨recurring, ms, now + ms, some cb⟩ else
        m.timer i := addTimer_timer now ms (some cb) recurring
    refine TimerService.ext (addTimer_made now ms (some cb) recurring) (funext fun i => ?_)
      (funext fun i => ?_) (funext fun i => ?_) (addTimerPtr_tickles m.made) (addTimerPtr_seen m.made)
    · show (r.2.1.timer i).m_ms = Function.update (fun t => (m.timer t).m_ms) m.made ms i
      rw [htimer, Function.update_apply]
      split <;> rfl
    · show (r.2.1.timer i).m_recurring =
        Function.update (fun t => (m.timer t).m_recurring) m.made recurring i
      rw [htimer, Function.update_apply]
      split <;> rfl
    · show (r.2.1.timer i).m_cb.map (fun cb => ((r.2.1.timer i).m_next, cb)) =
        Function.update m.service.pending m.made (some (now + ms, cb)) i
      rw [htimer, Function.update_apply]
      split <;> rfl

theorem cancel_refines (hm : m.WF addr) (t : ℕ) : ∃ m', m'.WF addr ∧
    m.cancel addr t = .ok ((m.service.pending t).isSome, m') ∧ m'.service = m.service.pend t none := by
  obtain ⟨b, m', h, hwf⟩ := cancel_ok hm t
  refine ⟨m', hwf, ?_⟩
  rw [service_isSome]
  rcases cancel_cases hm t with ⟨ht, heq⟩ | ⟨ht, heq⟩
  · rw [heq] at h ⊢
    cases h
    have hcb : (m.timer t).m_cb = none := Option.not_isSome_iff_eq_none.1 (mt (hm.armed t).2 ht)
    refine ⟨by rw [hcb]; rfl, ?_⟩
    have hpend : m.service.pending t = none := (service_none hm).2 ht
    refine TimerService.ext rfl rfl rfl ?_ rfl rfl
    exact (Function.update_eq_self_iff.2 hpend.symm).symm
  · rw [heq] at h ⊢
    cases h
    refine ⟨by rw [(hm.armed t).1 ht], ?_⟩
    have hservice : ((m.set t { m.timer t with m_cb := none }).erase t).service = _ :=
      service_set (m := m) (fun i => rfl) rfl rfl rfl
    refine hservice.trans (TimerService.ext rfl ?_ rfl rfl rfl rfl)
    exact Function.update_eq_self t _

/-- Re-arming a timer: taken out, rewritten with its callback kept, and inserted. -/
theorem reinsert_service (hm : m.WF addr) {t : ℕ} (ht : t ∈ m.m_timers) {x : Timer}
    (hcb : x.m_cb = (m.timer t).m_cb) (hrec : x.m_recurring = (m.timer t).m_recurring)
    (m' : TimerManager) (htimer : m'.timer = (((m.erase t).set t x).insert addr t).timer)
    (hmade : m'.made = m.made) (hseen : m'.m_previousTime = m.m_previousTime) :
    ∃ d cb, m.service.pending t = some (d, cb) ∧ d = (m.timer t).m_next ∧
      m'.service = { m.service.pend t (some (x.m_next, cb)) with
        period := Function.update m.service.period t x.m_ms
        tickled := m'.m_tickled } := by
  obtain ⟨cb, hsome⟩ := Option.isSome_iff_exists.1 ((hm.armed t).1 ht)
  refine ⟨(m.timer t).m_next, cb, by rw [service_pending, hsome]; rfl, rfl, ?_⟩
  rw [service_set (m := m) (t := t) (x := x) (fun i => by rw [htimer]; rfl) hmade hseen hrec, hcb, hsome]
  rfl

theorem refresh_refines (hm : m.WF addr) (now : UInt64) (t : ℕ) :
    (m.refresh addr now t).1 = (m.service.pending t).isSome ∧ (m.refresh addr now t).2.service =
      m.service.pend t ((m.service.pending t).map fun p => (now + m.service.period t, p.2)) := by
  rcases refresh_cases hm now t with ⟨ht, heq⟩ | ⟨ht, heq⟩
  · have hpend : m.service.pending t = none := (service_none hm).2 ht
    rw [heq, hpend]
    refine ⟨rfl, TimerService.ext rfl rfl rfl ?_ rfl rfl⟩
    exact (Function.update_eq_self_iff.2 hpend.symm).symm
  · rw [heq]
    obtain ⟨d, cb, hpend, -, hservice⟩ := reinsert_service hm ht
      (x := { m.timer t with m_next := now + (m.timer t).m_ms }) rfl rfl
      (((m.erase t).set t { m.timer t with m_next := now + (m.timer t).m_ms }).insert addr t) rfl rfl rfl
    rw [hpend]
    refine ⟨rfl, hservice.trans (TimerService.ext rfl ?_ rfl rfl rfl rfl)⟩
    exact Function.update_eq_self t _

/-- `reset` on a timer that is armed. -/
theorem reset_refines (hm : m.WF addr) {t : ℕ} (ht : t ∈ m.m_timers) (ms start : UInt64) :
    let r := ((m.erase t).set t
      { m.timer t with m_ms := ms, m_next := start + ms }).addTimerPtr addr t
    (m.service.pend t none).Front (start + ms) r.2 ∧
      ∃ cb, m.service.pending t = some ((m.timer t).m_next, cb) ∧
        r.1.service = { m.service.pend t (some (start + ms, cb)) with
          period := Function.update m.service.period t ms
          tickled := m.service.tickled || r.2 } := by
  intro r
  set x : Timer := { m.timer t with m_ms := ms, m_next := start + ms } with hx
  have hnot : t ∉ ((m.erase t).set t x).m_timers := fun h => ((mem_erase hm.sorted).1 h).1 rfl
  have hsorted := sorted_set (x := x) (sorted_erase hm.sorted t) hnot
  constructor
  · have hnext : (((m.erase t).set t x).timer t).m_next = start + ms := by simp [hx]
    rw [← hnext]
    refine front_of_insert hsorted ?_ rfl hnot
    intro i d
    have hmem : i ∈ ((m.erase t).set t x).m_timers ↔ i ≠ t ∧ i ∈ m.m_timers := mem_erase hm.sorted
    rw [hmem]
    by_cases hi : i = t
    · subst hi
      simp [TimerService.Due, TimerService.pend]
    · have hpend : (m.service.pend t none).pending i = m.service.pending i :=
        Function.update_of_ne hi _ _
      have hdue : (m.service.pend t none).Due i d ↔ m.service.Due i d := by
        unfold TimerService.Due; rw [hpend]
      have htimer : ((m.erase t).set t x).timer i = m.timer i := set_timer_of_ne x hi
      rw [hdue, service_due hm, htimer]
      simp [hi]
  · obtain ⟨d, cb, hpend, hd, hservice⟩ := reinsert_service hm ht (x := x) rfl rfl r.1
      (addTimerPtr_timer t) (addTimerPtr_made t) (addTimerPtr_seen t)
    refine ⟨cb, by rw [hpend, hd], hservice.trans ?_⟩
    have htickled : r.1.m_tickled = (m.m_tickled || r.2) := addTimerPtr_tickles t
    rw [htickled]
    rfl

/-- `getNextTimer` waits for the timer due first. -/
theorem getNextTimer_refines (hm : m.WF addr) (now : UInt64) :
    m.service.Step (.op (.getNextTimer now)) (.wait (m.getNextTimer now).1)
      (m.getNextTimer now).2.service := by
  have hservice : (m.getNextTimer now).2.service = { m.service with tickled := false } := by
    rw [getNextTimer_eq]; rfl
  rw [hservice, getNextTimer_fst]
  cases hl : m.m_timers with
  | nil =>
    refine .getNextTimerNone now ?_
    intro t
    rw [service_none hm, hl]
    exact List.not_mem_nil
  | cons next rest =>
    have hhead : m.m_timers.head? = some next := by rw [hl]; rfl
    refine .getNextTimer now next _ ((service_due hm).2 ⟨by rw [hl]; exact List.mem_cons_self, rfl⟩) ?_
    intro t d hd
    obtain ⟨ht, rfl⟩ := (service_due hm).1 hd
    exact front_le hm.sorted hhead ht

/-- `listExpiredCb` hands out the timers that are due. -/
theorem listExpiredCb_refines (hm : m.WF addr) (now : UInt64) (probe : ℕ) : ∃ cbs m', m'.WF addr ∧
    m.listExpiredCb addr now probe = .ok (cbs, m') ∧
      m.service.Step (.listExpiredCb now probe) (.cbs cbs) m'.service := by
  obtain ⟨cbs, m', h, hwf⟩ := listExpiredCb_ok hm now probe
  refine ⟨cbs, m', hwf, h, ?_⟩
  by_cases hnil : m.m_timers = []
  · -- the first section finds the set empty
    unfold listExpiredCb at h
    rw [if_pos hnil] at h
    cases h
    refine .listExpiredNone now probe ?_
    intro t
    rw [service_none hm, hnil]
    exact List.not_mem_nil
  have hscan := listExpiredCb_scans hm.sorted h
  have hexpired : ∀ t, t ∈ m.expired addr now probe ↔
      ∃ d, m.service.Due t d ∧ (m.service.rollover now = true ∨ d ≤ now) := by
    intro t
    rw [mem_expired hm.sorted]
    constructor
    · rintro ⟨ht, hdue⟩
      exact ⟨_, (service_due hm).2 ⟨ht, rfl⟩, hdue⟩
    · rintro ⟨d, hd, hdue⟩
      obtain ⟨ht, rfl⟩ := (service_due hm).1 hd
      exact ⟨ht, hdue⟩
  have hcbs : cbs = (m.expired addr now probe).map fun t => (m.service.pending t).map (·.2) := by
    rw [hscan.cbs]
    refine List.map_congr_left fun t _ => ?_
    rw [service_pending, Option.map_map]
    exact Option.map_id'.symm
  have hservice : m'.service = { m.service with
      pending := fun t => if t ∈ m.expired addr now probe then m.service.again now t
        else m.service.pending t
      seen := now } := by
    unfold listExpiredCb at h
    rw [if_neg hnil] at h
    refine TimerService.ext hscan.made (funext fun t => ?_) (funext fun t => ?_) (funext fun t => ?_)
      (listExpired_tickled h) (listExpired_scans hm.sorted h).2
    · show (m'.timer t).m_ms = (m.timer t).m_ms
      rw [hscan.timer, Timer.rearmed]
      split
      · split <;> rfl
      · rfl
    · show (m'.timer t).m_recurring = (m.timer t).m_recurring
      rw [hscan.timer, Timer.rearmed]
      split
      · split <;> rfl
      · rfl
    · show m'.service.pending t = _
      rw [service_pending, hscan.timer, Timer.rearmed]
      dsimp only
      split
      · -- a timer that is handed out
        unfold TimerService.again
        rw [service_pending, Option.map_map]
        by_cases hrec : (m.timer t).m_recurring = true
        · have hrec' : m.service.recurring t = true := hrec
          rw [if_pos hrec, if_pos hrec']
          rfl
        · have hrec' : ¬ m.service.recurring t = true := hrec
          rw [if_neg hrec, if_neg hrec']
          rfl
      · rfl
  obtain ⟨t, ht⟩ := List.exists_mem_of_ne_nil _ hnil
  rw [hservice, hcbs]
  refine .listExpired now probe _ ⟨t, fun hnone => (service_none hm).1 hnone ht⟩
    (expired_nodup hm.sorted now probe) hexpired ?_
  have hprefix : expired addr m now probe <+: m.m_timers := expired_prefix m now probe
  refine ((sorted_next hm.sorted).sublist hprefix.sublist).imp ?_
  intro t t' hle d d' hd hd'
  obtain ⟨-, rfl⟩ := (service_due hm).1 hd
  obtain ⟨-, rfl⟩ := (service_due hm).1 hd'
  exact hle

end TimerManager

/-! ## Runs -/

open TimerManager

theorem TimerCall.answer_step {addr : ℕ ↪ ℕ} (m : TimerManager) (c : TimerCall) :
    (c.answer addr m).map (·.2) = c.step addr (.ok m) := by
  rcases c with (_ | _ | t | _ | _ | _) | ⟨now, probe⟩
  · rfl
  · rfl
  · show ((m.cancel addr t).map _).map _ = (m.cancel addr t).map _
    cases m.cancel addr t <;> rfl
  · rfl
  · rfl
  · rfl
  · show ((m.listExpiredCb addr now probe).map _).map _ = (m.listExpiredCb addr now probe).map _
    cases m.listExpiredCb addr now probe <;> rfl

/-- **One call refines the service.** -/
theorem answer_refines (addr : ℕ ↪ ℕ) : Refines (fun m c => TimerCall.answer addr m c) TimerService.Step
    fun m s => m.WF addr ∧ m.service = s := by
  rintro m s ⟨hm, rfl⟩ c
  have hstep : ∀ ans m', c.answer addr m = .ok (ans, m') → m.service.Step c ans m'.service →
      ∃ b s' t', c.answer addr m = .ok (b, s') ∧ m.service.Step c b t' ∧ s'.WF addr ∧ s'.service = t' := by
    intro ans m' hans hserv
    obtain ⟨m'', hcall, hwf⟩ := TimerCall.step_ok hm c
    rw [← TimerCall.answer_step, hans] at hcall
    cases hcall
    exact ⟨ans, m', m'.service, hans, hserv, hwf, rfl⟩
  rcases c with o | ⟨now, probe⟩
  · cases o with
    | addTimer now ms cb recurring =>
      obtain ⟨ht, -, hfront, hservice⟩ := addTimer_refines hm now ms (.fn cb) recurring
      refine hstep (.timer _ (m.addTimer addr now ms (some (.fn cb)) recurring).2.2)
        (m.addTimer addr now ms (some (.fn cb)) recurring).2.1 rfl ?_
      rw [hservice]
      exact .addTimer now ms cb recurring _ hfront
    | addConditionTimer now ms cb weak_cond recurring =>
      obtain ⟨ht, -, hfront, hservice⟩ :=
        addTimer_refines hm now ms (.onTimer weak_cond cb) recurring
      refine hstep (.timer _ (m.addTimer addr now ms (some (.onTimer weak_cond cb)) recurring).2.2)
        (m.addTimer addr now ms (some (.onTimer weak_cond cb)) recurring).2.1 rfl ?_
      rw [hservice]
      exact .addConditionTimer now ms cb weak_cond recurring _ hfront
    | cancel t =>
      obtain ⟨m', -, h, hservice⟩ := cancel_refines hm t
      refine hstep (.done (m.service.pending t).isSome) m' ?_ ?_
      · simp only [TimerCall.answer, h]; rfl
      · rw [hservice]; exact .cancel t
    | refresh now t =>
      obtain ⟨hb, hservice⟩ := refresh_refines hm now t
      refine hstep (.done (m.refresh addr now t).1) (m.refresh addr now t).2 rfl ?_
      rw [hb, hservice]
      exact .refresh now t
    | reset now ms from_now t =>
      refine hstep (.reset (m.reset addr now ms from_now t).1 (m.reset addr now ms from_now t).2.2)
        (m.reset addr now ms from_now t).2.1 rfl ?_
      rcases reset_cases hm now ms from_now t with ⟨⟨rfl, rfl⟩, heq⟩ | ⟨hnew, ht, heq⟩ | ⟨hnew, ht, heq⟩
      · rw [heq]
        exact .resetSame now t
      · rw [heq]
        exact .resetIdle now ms from_now t hnew ((service_none hm).2 ht)
      · rw [heq]
        obtain ⟨hfront, cb, hpend, hservice⟩ := reset_refines hm ht ms
          (if from_now then now else (m.timer t).m_next - (m.timer t).m_ms)
        dsimp only at hfront hservice ⊢
        rw [hservice]
        exact .reset now ms from_now t _ cb _ hnew hpend hfront
    | getNextTimer now => exact hstep _ (m.getNextTimer now).2 rfl (getNextTimer_refines hm now)
  · obtain ⟨cbs, m', -, h, hserv⟩ := listExpiredCb_refines hm now probe
    refine hstep (.cbs cbs) m' ?_ hserv
    simp only [TimerCall.answer, h]
    rfl

/-- **A `TimerManager` refines the timer service**: over every sequence of calls, made at whatever
clock readings, it never faults and answers as the service may, wherever its timers lie. -/
theorem manager_refines (addr : ℕ ↪ ℕ) (start : UInt64) (cs : List TimerCall) :
    ∃ bs m, answers (fun m c => TimerCall.answer addr m c) (TimerManager.init start) cs = .ok (bs, m) ∧
      bs.length = cs.length ∧
      Serves TimerService.Step (TimerManager.init start).service (cs.zip bs) m.service := by
  obtain ⟨bs, m, t, hrun, hlen, hserves, -, rfl⟩ :=
    (answer_refines addr).serves cs ⟨init_wf start, rfl⟩
  exact ⟨bs, m, hrun, hlen, hserves⟩

end Coroutine
